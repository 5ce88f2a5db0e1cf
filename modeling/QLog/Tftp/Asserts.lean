import QLog.Tftp.Upload

/-! # The assertions of the upload

A transfer may be of any length here, and an ACK may come late. Then an assertion is to fail only where a block has been
sent `TFTP_MAX_RETRY` times and its ACK has not come.

There are two ways for it to fail otherwise. The main loop asserts that it reads no ACK but that of the last block
acknowledged. And an ACK of another block uses up a try of `tftp_send_data_pkt` without a new sending, so that the tries
run out before the block has been sent as often. To tell the second, the thread is watched: `strayAcks` counts the ACKs
of other blocks that a call has read. -/

namespace QLog.Tftp

open Library

/-! ## The property of a state -/

/-- The DATA packet of the block in `tx_pkt`. -/
def Transfer.packet (s : Transfer) : DataPacket := ⟨s.txBlock % 2 ^ 16, s.cur⟩

/-- **An assertion fails only when the tries are used up**: the last packets sent are as many times the block in
`tx_pkt`, whose ACK would have ended the call. -/
def Exhausted (s : Transfer) : Prop :=
  s.phase = .aborted → List.replicate tftpMaxRetry s.packet <:+ s.sent

instance (s : Transfer) : Decidable (Exhausted s) := inferInstanceAs (Decidable (_ → _))

/-- A packet that the network can bring from the server: the ACK of a block that it has received, fewer than 65536
blocks late. -/
def Packet.FromServer (s : Transfer) : Packet → Prop
  | .ack block => ∃ k ∈ List.range' 1 s.blocks.length, s.txBlock < k + 2 ^ 16 ∧ block = k % 2 ^ 16
  | .error => False
  | .other => True

instance (s : Transfer) : ∀ p : Packet, Decidable (p.FromServer s)
  | .ack _ => inferInstanceAs (Decidable (∃ k ∈ _, _))
  | .error => inferInstanceAs (Decidable False)
  | .other => inferInstanceAs (Decidable True)

/-- What comes from the network comes from the server. -/
def FromServer (s : Transfer) : TransferStep → Prop
  | .ready r => ∀ p ∈ r.packet, p.FromServer s
  | .answer p => p.FromServer s
  | _ => True

instance (s : Transfer) : ∀ step, Decidable (FromServer s step)
  | .write _ => inferInstanceAs (Decidable True)
  | .close => inferInstanceAs (Decidable True)
  | .deliver _ => inferInstanceAs (Decidable True)
  | .idle => inferInstanceAs (Decidable True)
  | .ready r => inferInstanceAs (Decidable (∀ p ∈ r.packet, p.FromServer s))
  | .noAnswer => inferInstanceAs (Decidable True)
  | .answer p => inferInstanceAs (Decidable (p.FromServer s))

/-! ## The thread, watched -/

/-- How many ACKs of other blocks the call of `tftp_send_data_pkt` has read behind a step. -/
def strayAcks (s : Transfer) (strays : Nat) (step : TransferStep) : Nat :=
  if s.phase.trying then
    match step with
    | .answer (.ack block) => if block = s.txBlock % 2 ^ 16 then strays else strays + 1
    | _ => strays
  else 0

/-- A step of the transfer, with the ACKs of other blocks counted. -/
def watchStep (blockSize : Nat) (w : Transfer × Nat) (step : TransferStep) : (Transfer × Nat) × List DataPacket :=
  (((transferStep blockSize w.1 step).1, strayAcks w.1 w.2 step), (transferStep blockSize w.1 step).2)

/-- The main loop reads no ACK but of the last block acknowledged, and a call whose tries run out has read no ACK of
another block in a try before the last one. -/
def Undisturbed (w : Transfer × Nat) : TransferStep → Prop
  | .ready r => w.1.phase = .main → ∀ p ∈ r.packet, p.InTurn w.1
  | .noAnswer => WithinRetries w.1 none ∨ w.2 = 0
  | .answer p => WithinRetries w.1 (some p) ∨ w.2 = 0
  | _ => True

instance (w : Transfer × Nat) : ∀ step, Decidable (Undisturbed w step)
  | .write _ => inferInstanceAs (Decidable True)
  | .close => inferInstanceAs (Decidable True)
  | .deliver _ => inferInstanceAs (Decidable True)
  | .idle => inferInstanceAs (Decidable True)
  | .ready r => inferInstanceAs (Decidable (_ → ∀ p ∈ r.packet, p.InTurn w.1))
  | .noAnswer => inferInstanceAs (Decidable (_ ∨ _))
  | .answer _ => inferInstanceAs (Decidable (_ ∨ _))

/-- Counting does not change the transfer. -/
theorem watch_projects (blockSize : Nat) :
    Projects (watchStep blockSize) (transferStep blockSize) Prod.fst some some where
  hit w step step' h := by
    rw [Option.some_inj] at h
    subst h
    exact ⟨rfl, List.filterMap_some⟩
  miss w step h := absurd h (by simp)

theorem watch_fst (blockSize : Nat) (steps : List TransferStep) (w : Transfer × Nat) :
    (runSteps (watchStep blockSize) w steps).1.1 = (runSteps (transferStep blockSize) w.1 steps).1 := by
  have h := ((watch_projects blockSize).runSteps w steps).1
  rwa [List.filterMap_some] at h

/-! ## What has been sent -/

/-- Of a list that ends with copies of `a`, no more than these are a suffix. -/
theorem replicate_suffix_iff {α : Type*} {a : α} {front : List α} {n k : Nat} (hfront : ∀ b ∈ front.getLast?, b ≠ a) :
    List.replicate n a <:+ front ++ List.replicate k a ↔ n ≤ k := by
  constructor
  · rintro ⟨more, hmore⟩
    by_contra hlt
    -- a longer suffix would take in the last element of `front`
    have hsplit : List.replicate n a = List.replicate (n - k) a ++ List.replicate k a := by
      rw [List.replicate_append_replicate, Nat.sub_add_cancel (by omega)]
    rw [hsplit, ← List.append_assoc] at hmore
    have heq : more ++ List.replicate (n - k) a = front := List.append_cancel_right hmore
    refine hfront a ?_ rfl
    rw [← heq, List.getLast?_append, List.getLast?_replicate, if_neg (by omega)]
    rfl
  · intro hle
    refine ⟨front ++ List.replicate (k - n) a, ?_⟩
    rw [List.append_assoc, List.replicate_append_replicate, Nat.sub_add_cancel hle]

/-- The block in `tx_pkt` has been sent `k` times, and another one before it. -/
def Sends (s : Transfer) (k : Nat) : Prop :=
  ∃ front, (∀ p ∈ front.getLast?, p.block ≠ s.txBlock % 2 ^ 16) ∧ s.sent = front ++ List.replicate k s.packet

/-- In the watched thread every try but those behind an ACK of another block has sent the block. -/
def WatchInv (w : Transfer × Nat) : Prop :=
  match w.1.phase with
  | .main => Sends w.1 0
  | .sending waitAck => waitAck < tftpMaxRetry ∧ w.2 ≤ waitAck ∧ Sends w.1 (waitAck + 1 - w.2)
  | .final waitAck => waitAck < tftpMaxRetry ∧ w.2 ≤ waitAck ∧ Sends w.1 (waitAck + 1 - w.2)
  | _ => True

section Watch

variable {blockSize : Nat} {s s' : Transfer} {w : Transfer × Nat} {k : Nat}

theorem Sends.suffix_iff (h : Sends s k) : List.replicate tftpMaxRetry s.packet <:+ s.sent ↔ tftpMaxRetry ≤ k := by
  obtain ⟨front, hfront, hsent⟩ := h
  rw [hsent]
  apply replicate_suffix_iff
  rintro p hp rfl
  exact hfront _ hp rfl

/-- A step that sends nothing keeps the number, as long as the block stays. -/
theorem Sends.keep (h : Sends s k) (hblock : s'.txBlock = s.txBlock) (hcur : s'.cur = s.cur)
    (hsent : s'.sent = s.sent) : Sends s' k := by
  rw [Sends, Transfer.packet, hblock, hcur, hsent]
  exact h

/-- A block that has not been sent may grow. -/
theorem Sends.grow (h : Sends s 0) (hblock : s'.txBlock = s.txBlock) (hsent : s'.sent = s.sent) : Sends s' 0 := by
  obtain ⟨front, hfront, hfrom⟩ := h
  rw [List.replicate_zero, List.append_nil] at hfrom
  refine ⟨front, ?_, ?_⟩
  · rw [hblock]
    exact hfront
  · rw [hsent, hfrom, List.replicate_zero, List.append_nil]

theorem Sends.sendData (h : Sends s k) (phase : Phase) : Sends (sendData s phase).1 (k + 1) := by
  obtain ⟨front, hfront, hsent⟩ := h
  refine ⟨front, hfront, ?_⟩
  show s.sent ++ [s.packet] = front ++ List.replicate (k + 1) s.packet
  rw [hsent, List.append_assoc, List.replicate_succ']

/-- The next block has another number. -/
theorem Sends.acked (h : Sends s k) (hpos : 0 < k) : Sends (blockAcked s) 0 := by
  obtain ⟨front, -, hsent⟩ := h
  refine ⟨s.sent, ?_, ?_⟩
  · intro p hp
    rw [hsent, List.getLast?_append, List.getLast?_replicate, if_neg (by omega), Option.some_or,
      Option.mem_some_iff] at hp
    rw [← hp]
    show s.txBlock % 2 ^ 16 ≠ (s.txBlock + 1) % 2 ^ 16
    omega
  · show s.sent = s.sent ++ List.replicate 0 _
    rw [List.replicate_zero, List.append_nil]

/-- The ACKs of other blocks behind a try. -/
def strayPoll (s : Transfer) (strays : Nat) : Option Packet → Nat
  | some (.ack block) => if block = s.txBlock % 2 ^ 16 then strays else strays + 1
  | _ => strays

theorem strayPoll_eq {strays : Nat} {p : Option Packet} {needSend : Bool} (hnot : ¬ EndsTry s p)
    (hneed : needSend = false ↔ ∃ block, p = some (.ack block)) :
    strayPoll s strays p = strays + (!needSend).toNat := by
  rcases p with _ | (block | _ | _)
  case some.ack =>
      rw [EndsTry, Option.some_inj, Packet.ack.injEq] at hnot
      rw [strayPoll, if_neg hnot, hneed.mpr ⟨block, rfl⟩]
      rfl
  all_goals
    have hsent : needSend = true := by simpa using hneed
    rw [hsent]
    rfl

/-- A try that is repeated sends the block if it has not read an ACK of another one. -/
theorem Sends.retry {waitAck strays : Nat} (h : Sends s (waitAck + 1 - strays)) (phase : Nat → Phase)
    (hle : strays ≤ waitAck) (hmore : waitAck + 1 < tftpMaxRetry) (needSend : Bool) :
    (Tftp.retry s phase waitAck needSend).1.phase = phase (waitAck + 1) ∧
      Sends (Tftp.retry s phase waitAck needSend).1 (waitAck + 2 - (strays + (!needSend).toNat)) := by
  rw [Tftp.retry, if_pos hmore]
  cases needSend with
  | true =>
      have hnext : waitAck + 2 - (strays + (!true).toNat) = waitAck + 1 - strays + 1 := by
        simp
        omega
      rw [if_pos rfl, hnext]
      exact ⟨rfl, h.sendData _⟩
  | false =>
      have hsame : waitAck + 2 - (strays + (!false).toNat) = waitAck + 1 - strays := by simp
      rw [if_neg Bool.false_ne_true, hsame]
      exact ⟨rfl, h.keep rfl rfl rfl⟩

/-- **A try of `tftp_send_data_pkt`**: it ends the call, another one follows, or it was the last one. -/
theorem sendPoll_watch (phase : Nat → Phase) (acked : Transfer) {waitAck strays : Nat} {p : Option Packet}
    (hle : strays ≤ waitAck) (hsends : Sends s (waitAck + 1 - strays)) (herror : p ≠ some .error) :
    EndsTry s p ∧ sendPoll s phase waitAck acked p = (acked, []) ∨
      ¬ EndsTry s p ∧ waitAck + 1 < tftpMaxRetry ∧ (sendPoll s phase waitAck acked p).1.phase = phase (waitAck + 1) ∧
        strayPoll s strays p ≤ waitAck + 1 ∧
        Sends (sendPoll s phase waitAck acked p).1 (waitAck + 2 - strayPoll s strays p) ∨
      ¬ EndsTry s p ∧ ¬ waitAck + 1 < tftpMaxRetry ∧
        sendPoll s phase waitAck acked p = ({ s with phase := .aborted }, []) := by
  rcases sendPoll_eq herror with hends | ⟨hnot, needSend, hneed, hpoll⟩
  · exact Or.inl hends
  · rw [hpoll, strayPoll_eq hnot hneed]
    by_cases hmore : waitAck + 1 < tftpMaxRetry
    · obtain ⟨hphase, hnext⟩ := hsends.retry phase hle hmore needSend
      have hcount : strays + (!needSend).toNat ≤ waitAck + 1 := by
        have hone := Bool.toNat_le (!needSend)
        omega
      exact Or.inr (Or.inl ⟨hnot, hmore, hphase, hcount, hnext⟩)
    · rw [retry, if_neg hmore]
      exact Or.inr (Or.inr ⟨hnot, hmore, rfl⟩)

/-- A transfer that goes on has not failed. -/
theorem exhausted_of_running (h : s.phase ≠ .aborted) : Exhausted s := fun haborted => absurd haborted h

/-- Where an assertion fails, the block must have been sent often enough. -/
theorem Sends.exhausted_iff (h : Sends s k) (haborted : s.phase = .aborted) : Exhausted s ↔ tftpMaxRetry ≤ k := by
  rw [← h.suffix_iff]
  exact ⟨fun hex => hex haborted, fun hsuffix _ => hsuffix⟩

/-- A try of a call, where `acked` is the state behind the ACK: the tries go on, or they have been used up by the block
itself. -/
theorem sendPoll_call (phase : Nat → Phase) (acked : Transfer) {waitAck : Nat} {p : Option Packet}
    (hlt : waitAck < tftpMaxRetry) (hle : w.2 ≤ waitAck) (hsends : Sends w.1 (waitAck + 1 - w.2))
    (hagain : ∀ s strays, s.phase = phase (waitAck + 1) → waitAck + 1 < tftpMaxRetry → strays ≤ waitAck + 1 →
      Sends s (waitAck + 2 - strays) → WatchInv (s, strays) ∧ Exhausted s)
    (hacked : ∀ strays, WatchInv (acked, strays) ∧ Exhausted acked) (herror : p ≠ some .error) :
    WatchInv ((sendPoll w.1 phase waitAck acked p).1, strayPoll w.1 w.2 p) ∧
      (Exhausted (sendPoll w.1 phase waitAck acked p).1 ↔
        (EndsTry w.1 p ∨ waitAck + 1 < tftpMaxRetry) ∨ w.2 = 0) := by
  rcases sendPoll_watch phase acked hle hsends herror with
    ⟨hends, hpoll⟩ | ⟨hnot, hmore, hphase, hcount, hnext⟩ | ⟨hnot, hmore, hpoll⟩
  · obtain ⟨hinv, hex⟩ := hacked (strayPoll w.1 w.2 p)
    rw [hpoll]
    exact ⟨hinv, iff_of_true hex (Or.inl (Or.inl hends))⟩
  · obtain ⟨hinv, hex⟩ := hagain _ _ hphase hmore hcount hnext
    exact ⟨hinv, iff_of_true hex (Or.inl (Or.inr hmore))⟩
  · -- the last try has failed
    have hsame : Sends { w.1 with phase := .aborted } (waitAck + 1 - w.2) := hsends.keep rfl rfl rfl
    rw [hpoll, hsame.exhausted_iff rfl]
    refine ⟨trivial, ?_⟩
    simp only [hnot, hmore, false_or]
    omega

/-- A poll of `tftp_send_data_pkt`, wherever the thread is in it. -/
theorem sendStep_watch (h : WatchInv w) {p : Option Packet} (herror : p ≠ some .error) :
    WatchInv ((sendStep w.1 p).1, if w.1.phase.trying then strayPoll w.1 w.2 p else 0) ∧
      (Exhausted w.1 → (Exhausted (sendStep w.1 p).1 ↔ WithinRetries w.1 p ∨ w.2 = 0)) := by
  rw [WatchInv] at h
  rw [sendStep, WithinRetries]
  cases hs : w.1.phase with
  -- outside of a call nothing is polled for
  | main =>
      rw [hs] at h
      refine ⟨?_, fun hex => iff_of_true hex (Or.inl trivial)⟩
      rw [WatchInv, hs]
      exact h
  | ended => exact ⟨by rw [WatchInv, hs]; trivial, fun hex => iff_of_true hex (Or.inl trivial)⟩
  | aborted => exact ⟨by rw [WatchInv, hs]; trivial, fun hex => iff_of_true hex (Or.inl trivial)⟩
  | sending waitAck =>
      rw [hs] at h
      obtain ⟨hlt, hle, hsends⟩ := h
      have hcall := sendPoll_call .sending (blockAcked w.1) hlt hle hsends
        (fun s strays hphase hmore hcount hnext =>
          ⟨by rw [WatchInv, hphase]; exact ⟨hmore, hcount, hnext⟩, exhausted_of_running (by simp [hphase])⟩)
        (fun strays => ⟨hsends.acked (by omega), exhausted_of_running (by simp [blockAcked])⟩) herror
      exact ⟨hcall.1, fun _ => hcall.2⟩
  | final waitAck =>
      rw [hs] at h
      obtain ⟨hlt, hle, hsends⟩ := h
      have hcall := sendPoll_call .final { w.1 with phase := .ended } hlt hle hsends
        (fun s strays hphase hmore hcount hnext =>
          ⟨by rw [WatchInv, hphase]; exact ⟨hmore, hcount, hnext⟩, exhausted_of_running (by simp [hphase])⟩)
        (fun strays => ⟨trivial, exhausted_of_running (by simp)⟩) herror
      exact ⟨hcall.1, fun _ => hcall.2⟩

/-- A sending from the main loop starts a call. -/
theorem watchInv_sendData (h : Sends s 0) {phase : Nat → Phase} (hphase : phase = .sending ∨ phase = .final) :
    WatchInv ((sendData s (phase 0)).1, 0) ∧ Exhausted (sendData s (phase 0)).1 := by
  have hone := h.sendData (phase 0)
  rcases hphase with rfl | rfl
  · exact ⟨⟨by decide, Nat.le_refl 0, hone⟩, exhausted_of_running (by simp [sendData])⟩
  · exact ⟨⟨by decide, Nat.le_refl 0, hone⟩, exhausted_of_running (by simp [sendData])⟩

/-- The pipe part of the main loop has no assertion. -/
theorem mainPipe_watch (blockSize : Nat) (h : Sends s 0) (hmain : s.phase = .main) (pipeIn : Option Nat) (hup : Bool) :
    WatchInv ((mainPipe blockSize s pipeIn hup).1, 0) ∧ Exhausted (mainPipe blockSize s pipeIn hup).1 := by
  -- the loop goes on without sending
  have hstay : ∀ s : Transfer, s.phase = .main → Sends s 0 → WatchInv (s, 0) ∧ Exhausted s := by
    intro s hmain h
    refine ⟨?_, exhausted_of_running (by simp [hmain])⟩
    rw [WatchInv, hmain]
    exact h
  rcases pipeIn with _ | _ | n
  case some.zero => exact watchInv_sendData h (Or.inr rfl)
  case none =>
      rw [mainPipe]
      by_cases hhup : hup = true
      · rw [if_pos hhup]
        exact watchInv_sendData h (Or.inr rfl)
      · rw [if_neg hhup]
        exact hstay s hmain h
  case some.succ =>
      have hgrow : Sends { s with
          cur := s.cur ++ s.pipe.unread.take (n + 1)
          pipe := { s.pipe with pos := s.pipe.pos + (n + 1) } } 0 := h.grow rfl rfl
      rw [mainPipe]
      dsimp only
      by_cases hfull : (s.cur ++ s.pipe.unread.take (n + 1)).length = blockSize
      · rw [if_pos hfull]
        exact watchInv_sendData hgrow (Or.inl rfl)
      · rw [if_neg hfull]
        exact hstay _ hmain hgrow

/-- The main loop asserts that an ACK is that of the last block acknowledged. -/
theorem mainReady_watch (blockSize : Nat) (h : Sends s 0) (hmain : s.phase = .main) (r : Ready) :
    WatchInv ((mainReady blockSize s r).1, 0) ∧
      (Exhausted (mainReady blockSize s r).1 ↔ ∀ p ∈ r.packet, p.InTurn s) := by
  cases hacks : r.acks with
  | false =>
      obtain ⟨hinv, hex⟩ := mainPipe_watch blockSize h hmain r.pipeIn r.hup
      rw [mainReady_of_not_acks hacks]
      refine ⟨hinv, iff_of_true hex fun p hp => ?_⟩
      rw [Ready.acks, Option.mem_def.mp hp] at hacks
      cases p with
      | ack block => exact absurd hacks (by simp)
      | error => trivial
      | other => trivial
  | true =>
      by_cases hturn : ∀ p ∈ r.packet, p.InTurn s
      · rw [mainReady_of_acks hacks hturn]
        refine ⟨?_, iff_of_true (exhausted_of_running (by simp [hmain])) hturn⟩
        rw [WatchInv, hmain]
        exact h
      · -- nothing of the block in `tx_pkt` has been sent
        have hsame : Sends { s with phase := .aborted } 0 := h.keep rfl rfl rfl
        rw [mainReady_of_not_inTurn hturn]
        exact ⟨trivial, iff_of_false (by rw [hsame.exhausted_iff rfl]; decide) hturn⟩

theorem strayAcks_main (hmain : s.phase = .main) (strays : Nat) (step : TransferStep) :
    strayAcks s strays step = 0 := by
  simp [strayAcks, hmain, Phase.trying]

/-- The writer and the network leave the thread where it is. -/
theorem WatchInv.keep (h : WatchInv w) (hphase : s'.phase = w.1.phase) (hblock : s'.txBlock = w.1.txBlock)
    (hcur : s'.cur = w.1.cur) (hsent : s'.sent = w.1.sent) :
    WatchInv (s', if w.1.phase.trying then w.2 else 0) ∧ (Exhausted w.1 → (Exhausted s' ↔ True)) := by
  constructor
  · rw [WatchInv] at h ⊢
    rw [hphase]
    cases hs : w.1.phase <;> rw [hs] at h
    case main => exact Sends.keep h hblock hcur hsent
    case sending => exact ⟨h.1, h.2.1, h.2.2.keep hblock hcur hsent⟩
    case final => exact ⟨h.1, h.2.1, h.2.2.keep hblock hcur hsent⟩
    case ended => trivial
    case aborted => trivial
  · intro hex
    rw [Exhausted, Transfer.packet, hphase, hblock, hcur, hsent]
    exact iff_of_true hex trivial

/-- **Every step keeps the invariant**, and no assertion fails without need exactly if the step disturbs nothing. -/
theorem WatchInv.step (h : WatchInv w) {step : TransferStep} (hserver : FromServer w.1 step) :
    WatchInv (watchStep blockSize w step).1 ∧
      (Exhausted w.1 → (Exhausted (watchStep blockSize w step).1.1 ↔ Undisturbed w step)) := by
  cases step with
  | write bytes => exact h.keep rfl rfl rfl rfl
  | close => exact h.keep rfl rfl rfl rfl
  | deliver i =>
      rw [watchStep, transferStep]
      cases hp : w.1.sent[i]? with
      | none => exact h.keep rfl rfl rfl rfl
      | some p => exact h.keep rfl rfl rfl rfl
  | noAnswer => exact sendStep_watch h (by simp)
  | answer p =>
      have herror : some p ≠ some .error := by
        intro herror
        rw [Option.some_inj] at herror
        rw [herror] at hserver
        exact hserver
      have hstep := sendStep_watch h herror
      cases p <;> exact hstep
  | idle =>
      by_cases hmain : w.1.phase = .main
      · rw [watchStep, transferStep, if_pos hmain, mainIdle]
        by_cases hmany : tftpMaxRetry < w.1.reSend
        · rw [WatchInv, hmain] at h
          obtain ⟨hinv, hex⟩ := watchInv_sendData (s := { w.1 with reSend := w.1.reSend + 1 })
            (h.keep rfl rfl rfl) (Or.inr rfl)
          rw [if_pos hmany, strayAcks_main hmain]
          exact ⟨hinv, fun _ => iff_of_true hex trivial⟩
        · rw [if_neg hmany]
          exact h.keep rfl rfl rfl rfl
      · rw [watchStep, transferStep, if_neg hmain]
        exact h.keep rfl rfl rfl rfl
  | ready r =>
      by_cases hmain : w.1.phase = .main
      · have hsends : Sends w.1 0 := by
          rw [WatchInv, hmain] at h
          exact h
        have hready := mainReady_watch blockSize hsends hmain r
        rw [watchStep, transferStep, if_pos hmain, strayAcks_main hmain]
        exact ⟨hready.1, fun _ => hready.2.trans ⟨fun hturn _ => hturn, fun hturn => hturn hmain⟩⟩
      · rw [watchStep, transferStep, if_neg hmain]
        obtain ⟨hinv, hex⟩ : WatchInv (w.1, if w.1.phase.trying then w.2 else 0) ∧
            (Exhausted w.1 → (Exhausted w.1 ↔ True)) := h.keep rfl rfl rfl rfl
        exact ⟨hinv, fun hold => iff_of_true hold fun hmain' => absurd hmain' hmain⟩

/-- What has failed disturbs nothing any more. -/
theorem undisturbed_of_aborted (h : w.1.phase = .aborted) (step : TransferStep) : Undisturbed w step := by
  -- no tries are left to run out
  have hwithin : ∀ p, WithinRetries w.1 p := by
    intro p
    rw [WithinRetries, h]
    trivial
  cases step with
  | ready r => exact fun hmain => absurd (h.symm.trans hmain) (by simp)
  | noAnswer => exact Or.inl (hwithin none)
  | answer p => exact Or.inl (hwithin (some p))
  | _ => trivial

theorem watchInv_start : WatchInv (transferStart, 0) := ⟨[], by simp [transferStart], rfl⟩

end Watch

/-- **When no assertion fails but for a block that has been sent often enough** all along a run: exactly if the main
loop reads no ACK but of the last block acknowledged, and no call whose tries run out has read an ACK of another block
in a try before the last one. -/
theorem transferRun_exhausted_iff (blockSize : Nat) (steps : List TransferStep)
    (hserver : Along (transferStep blockSize) FromServer transferStart steps) :
    (∀ front, front <+: steps → Exhausted (transferRun blockSize front)) ↔
      Along (watchStep blockSize) Undisturbed (transferStart, 0) steps := by
  have hwatched : Along (watchStep blockSize) (fun w step => FromServer w.1 step) (transferStart, 0) steps :=
    (along_map (watchStep blockSize) Prod.fst (fun _ _ => rfl) (transferStart, 0) steps).mpr hserver
  have hrun : ∀ front, (runSteps (watchStep blockSize) (transferStart, 0) front).1.1 = transferRun blockSize front :=
    fun front => watch_fst blockSize front (transferStart, 0)
  constructor
  · intro hgood
    have hinv := along_and_invariant (watchStep blockSize) (fun w step hw hfrom => (hw.step hfrom).1) (transferStart, 0)
      steps watchInv_start hwatched
    have hneeds : ∀ w step, FromServer w.1 step ∧ WatchInv w →
        (Exhausted ∘ Prod.fst) (watchStep blockSize w step).1 → Undisturbed w step := by
      rintro w step ⟨hfrom, hw⟩ hnext
      by_cases haborted : w.1.phase = .aborted
      · exact undisturbed_of_aborted haborted step
      · exact ((hw.step hfrom).2 (exhausted_of_running haborted)).mp hnext
    have hall : ∀ front, front <+: steps →
        (Exhausted ∘ Prod.fst) (runSteps (watchStep blockSize) (transferStart, 0) front).1 := by
      intro front hfront
      rw [Function.comp_apply, hrun]
      exact hgood front hfront
    exact along_of_good (watchStep blockSize) hneeds (transferStart, 0) steps hinv hall
  · rintro hcalm front ⟨back, rfl⟩
    have hboth := along_and (watchStep blockSize) _ _ hwatched hcalm
    have hkept : ∀ w step, WatchInv w ∧ Exhausted w.1 → FromServer w.1 step ∧ Undisturbed w step →
        WatchInv (watchStep blockSize w step).1 ∧ Exhausted (watchStep blockSize w step).1.1 := by
      rintro w step ⟨hw, hex⟩ ⟨hfrom, hund⟩
      exact ⟨(hw.step hfrom).1, ((hw.step hfrom).2 hex).mpr hund⟩
    have hstart : (fun w : Transfer × Nat => WatchInv w ∧ Exhausted w.1) (transferStart, 0) :=
      ⟨watchInv_start, exhausted_of_running (by simp [transferStart])⟩
    have hend := runSteps_invariant_along (watchStep blockSize) hkept (transferStart, 0) front hstart
      ((along_append _ _ front back).mp hboth).1
    rw [← hrun]
    exact hend.2

/-- A block that is never acknowledged. -/
def silentServer : List TransferStep :=
  [.write [1, 2], .ready ⟨none, some 2, false⟩, .deliver 0] ++ List.replicate 12 .noAnswer

theorem transferRun_exhausted_silentServer :
    (transferRun 2 silentServer).phase = .aborted ∧ Exhausted (transferRun 2 silentServer) := by
  have hserver : Along (transferStep 2) FromServer transferStart silentServer := by decide
  have hall := (transferRun_exhausted_iff 2 silentServer hserver).mpr (by decide)
  exact ⟨by decide, hall silentServer (List.prefix_refl silentServer)⟩

/-- Two blocks, the first of which is sent twice and acknowledged twice. -/
def twoBlocks : List TransferStep :=
  [.write [1, 2, 3, 4], .ready ⟨none, some 2, false⟩, .deliver 0, .noAnswer, .deliver 1, .answer (.ack 1),
    .ready ⟨none, some 2, false⟩]

/-- The second ACK of block 1 comes when block 2 has been acknowledged. -/
theorem not_transferRun_exhausted :
    ¬ ∀ (blockSize : Nat) (steps : List TransferStep), 0 < blockSize →
      Along (transferStep blockSize) FromServer transferStart steps → Exhausted (transferRun blockSize steps) := by
  intro h
  have hlate := h 2 (twoBlocks ++ [.deliver 2, .answer (.ack 2), .ready ⟨some (.ack 1), none, false⟩]) (by decide)
    (by decide)
  exact absurd hlate (by decide)

/-- The second ACK of block 1 uses up a try, and block 2 is given up when it has been sent eleven times. -/
example :
    let steps := twoBlocks ++ .answer (.ack 1) :: List.replicate 11 .noAnswer
    Along (transferStep 2) FromServer transferStart steps ∧ ¬ Exhausted (transferRun 2 steps) := by
  decide

end QLog.Tftp
