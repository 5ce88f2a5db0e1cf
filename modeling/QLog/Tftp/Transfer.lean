import Mathlib.Algebra.Ring.Nat
import Mathlib.Data.List.Basic
import QLog.Library.Transducer

/-! # The upload of a log by TFTP

`tftp_write_thread` takes bytes out of a pipe, and sends every full block until the server has acknowledged it. When
the writer has closed the pipe, a shorter block ends the transfer. The network loses, doubles and delays packets.

`N_DATA` is 1, so every block is sent synchronously and no entry of `state` is ever set. The branches for blocks
that are still on their way are then those of failed assertions, and nothing ever sets `re_send` back: it counts the
pauses of the whole transfer. -/

namespace QLog.Tftp

open Library

/-- `TFTP_MAX_RETRY` -/
def tftpMaxRetry : Nat := 12

/-- A DATA packet. -/
structure DataPacket where
  block : Nat
  data : List UInt8
deriving DecidableEq

/-- A packet to the thread. -/
inductive Packet
  | ack (block : Nat)
  | error
  | other
deriving DecidableEq

/-- What the writer has written into the pipe, how far the thread has read, and whether the writer has closed it. -/
structure Pipe where
  written : List UInt8
  pos : Nat
  closed : Bool

/-- The bytes in the pipe. -/
def Pipe.unread (p : Pipe) : List UInt8 := p.written.drop p.pos

/-- Where the thread is; `waitAck` counts the tries of `tftp_send_data_pkt`. -/
inductive Phase
  /-- In the main loop. -/
  | main
  /-- Sending a full block. -/
  | sending (waitAck : Nat)
  /-- Sending the last block. -/
  | final (waitAck : Nat)
  | ended
  /-- An assertion has failed. -/
  | aborted
deriving DecidableEq

structure Transfer where
  pipe : Pipe
  /-- The block in `tx_pkt` as far as it is filled. -/
  cur : List UInt8
  txBlock : Nat
  rxBlock : Nat
  reSend : Nat
  phase : Phase
  /-- The packets that are or were on their way to the server. -/
  sent : List DataPacket
  /-- The blocks the server has received. -/
  blocks : List (List UInt8)

/-- What `poll` reports in the main loop when it does not time out. -/
structure Ready where
  /-- The packet on the socket. -/
  packet : Option Packet
  /-- How many bytes a `read` of the pipe returns, if it is readable. -/
  pipeIn : Option Nat
  /-- `POLLERR | POLLHUP` -/
  hup : Bool

/-- The packet on the socket is an ACK. -/
def Ready.acks (r : Ready) : Bool :=
  match r.packet with
  | some (.ack _) => true
  | _ => false

/-- A step of the writer, the network or the thread. -/
inductive TransferStep
  | write (bytes : List UInt8)
  | close
  /-- A DATA packet reaches the server. -/
  | deliver (i : Nat)
  /-- `poll` times out in the main loop. -/
  | idle
  | ready (r : Ready)
  /-- `poll` times out in `tftp_send_data_pkt`. -/
  | noAnswer
  | answer (p : Packet)

/-! ## The server -/

/-- A standard server: it takes the next block of the transfer, which a block that is not full has ended. -/
def serverReceive (blockSize : Nat) (blocks : List (List UInt8)) (p : DataPacket) : List (List UInt8) :=
  if p.block = (blocks.length + 1) % 2 ^ 16 ∧ ∀ b ∈ blocks.getLast?, b.length = blockSize then blocks ++ [p.data]
  else blocks

/-! ## The thread -/

/-- The `sendto` of the block that is in `tx_pkt`. -/
def sendData (s : Transfer) (phase : Phase) : Transfer × List DataPacket :=
  let p : DataPacket := ⟨s.txBlock % 2 ^ 16, s.cur⟩
  ({ s with phase := phase, sent := s.sent ++ [p] }, [p])

/-- The pipe part of the main loop. Where the pipe is closed, the loop ends and the last block is sent. -/
def mainPipe (blockSize : Nat) (s : Transfer) (pipeIn : Option Nat) (hup : Bool) : Transfer × List DataPacket :=
  match pipeIn with
  | some 0 => sendData s (.final 0)
  | some (n + 1) =>
      let s := { s with
        cur := s.cur ++ s.pipe.unread.take (n + 1)
        pipe := { s.pipe with pos := s.pipe.pos + (n + 1) } }
      if s.cur.length = blockSize then sendData s (.sending 0) else (s, [])
  | none => if hup then sendData s (.final 0) else (s, [])

/-- An iteration of the main loop in which `poll` does not time out. -/
def mainReady (blockSize : Nat) (s : Transfer) (r : Ready) : Transfer × List DataPacket :=
  match r.packet with
  | some (.ack block) =>
      -- no block is on its way whose ACK this could be
      if s.rxBlock + 1 = block then ({ s with phase := .aborted }, [])
      else if s.rxBlock = block then (s, [])
      else ({ s with phase := .aborted }, [])
  | _ => mainPipe blockSize s r.pipeIn r.hup

/-- An iteration of the main loop in which `poll` times out. -/
def mainIdle (s : Transfer) : Transfer × List DataPacket :=
  let counted := { s with reSend := s.reSend + 1 }
  if tftpMaxRetry < s.reSend then sendData counted (.final 0) else (counted, [])

/-- The next try of `tftp_send_data_pkt`. -/
def retry (s : Transfer) (phase : Nat → Phase) (waitAck : Nat) (needSend : Bool) : Transfer × List DataPacket :=
  if waitAck + 1 < tftpMaxRetry then
    if needSend then sendData s (phase (waitAck + 1)) else ({ s with phase := phase (waitAck + 1) }, [])
  else ({ s with phase := .aborted }, [])

/-- A try of `tftp_send_data_pkt`, with the packet that has come, if any; `acked` is the state behind the ACK. -/
def sendPoll (s : Transfer) (phase : Nat → Phase) (waitAck : Nat) (acked : Transfer) :
    Option Packet → Transfer × List DataPacket
  | none => retry s phase waitAck true
  | some (.ack block) => if block = s.txBlock % 2 ^ 16 then (acked, []) else retry s phase waitAck false
  | some .error => ({ s with phase := .aborted }, [])
  | some .other => retry s phase waitAck true

/-- The state behind the ACK of a full block. -/
def blockAcked (s : Transfer) : Transfer :=
  { s with rxBlock := s.txBlock % 2 ^ 16, txBlock := s.txBlock + 1, cur := [], phase := .main }

/-- A poll of `tftp_send_data_pkt`, wherever the thread is in it. -/
def sendStep (s : Transfer) (p : Option Packet) : Transfer × List DataPacket :=
  match s.phase with
  | .sending waitAck => sendPoll s .sending waitAck (blockAcked s) p
  | .final waitAck => sendPoll s .final waitAck { s with phase := .ended } p
  | _ => (s, [])

def transferStep (blockSize : Nat) (s : Transfer) : TransferStep → Transfer × List DataPacket
  | .write bytes => ({ s with pipe := { s.pipe with written := s.pipe.written ++ bytes } }, [])
  | .close => ({ s with pipe := { s.pipe with closed := true } }, [])
  | .deliver i =>
      match s.sent[i]? with
      | none => (s, [])
      | some p => ({ s with blocks := serverReceive blockSize s.blocks p }, [])
  | .idle => if s.phase = .main then mainIdle s else (s, [])
  | .ready r => if s.phase = .main then mainReady blockSize s r else (s, [])
  | .noAnswer => sendStep s none
  | .answer p => sendStep s (some p)

/-- The transfer as `tftp_write_thread` starts. -/
def transferStart : Transfer where
  pipe := ⟨[], 0, false⟩
  cur := []
  txBlock := 1
  rxBlock := 0
  reSend := 0
  phase := .main
  sent := []
  blocks := []

def transferRun (blockSize : Nat) (steps : List TransferStep) : Transfer :=
  (runSteps (transferStep blockSize) transferStart steps).1

/-! ## The environment -/

/-- A packet the server can have sent: the ACK of a block it has received, or one that the thread does not look at. -/
def Packet.Possible (s : Transfer) : Packet → Prop
  | .ack block => 1 ≤ block ∧ block ≤ s.blocks.length
  | .error => False
  | .other => True

instance (s : Transfer) : ∀ p : Packet, Decidable (p.Possible s)
  | .ack _ => inferInstanceAs (Decidable (_ ∧ _))
  | .error => inferInstanceAs (Decidable False)
  | .other => inferInstanceAs (Decidable True)

/-- What a read of the pipe returns: some of the bytes, or none of an empty pipe that has been closed. -/
def PipeRead (blockSize : Nat) (s : Transfer) : Nat → Prop
  | 0 => s.pipe.unread = [] ∧ s.pipe.closed = true
  | n + 1 => n + 1 ≤ s.pipe.unread.length ∧ n + 1 ≤ blockSize - s.cur.length

instance (blockSize : Nat) (s : Transfer) : ∀ n, Decidable (PipeRead blockSize s n)
  | 0 => inferInstanceAs (Decidable (_ ∧ _))
  | _ + 1 => inferInstanceAs (Decidable (_ ∧ _))

/-- The packet ends the try with success. -/
def EndsTry (s : Transfer) (p : Option Packet) : Prop := p = some (.ack (s.txBlock % 2 ^ 16))

instance (s : Transfer) (p : Option Packet) : Decidable (EndsTry s p) := inferInstanceAs (Decidable (_ = _))

/-- A try that fails is not the last one. -/
def WithinRetries (s : Transfer) (p : Option Packet) : Prop :=
  match s.phase with
  | .sending waitAck => EndsTry s p ∨ waitAck + 1 < tftpMaxRetry
  | .final waitAck => EndsTry s p ∨ waitAck + 1 < tftpMaxRetry
  | _ => True

instance (s : Transfer) (p : Option Packet) : Decidable (WithinRetries s p) :=
  match h : s.phase with
  | .sending waitAck => decidable_of_iff (EndsTry s p ∨ waitAck + 1 < tftpMaxRetry) (by rw [WithinRetries, h])
  | .final waitAck => decidable_of_iff (EndsTry s p ∨ waitAck + 1 < tftpMaxRetry) (by rw [WithinRetries, h])
  | .main => isTrue (by rw [WithinRetries, h]; trivial)
  | .ended => isTrue (by rw [WithinRetries, h]; trivial)
  | .aborted => isTrue (by rw [WithinRetries, h]; trivial)

/-- What the writer, the server and the network can do within the limits: the stream has less than 65535 full blocks,
the writer does not write after closing, a pause is one of the writer, and a block is acknowledged within the tries. -/
def EnvOk (blockSize : Nat) (s : Transfer) : TransferStep → Prop
  | .write bytes => s.pipe.closed = false ∧ (s.pipe.written ++ bytes).length < 65535 * blockSize
  | .close => True
  | .deliver _ => True
  | .idle => s.pipe.unread = [] ∧ s.pipe.closed = false
  | .ready r => (∀ p ∈ r.packet, p.Possible s) ∧ (∀ n ∈ r.pipeIn, PipeRead blockSize s n) ∧
      (r.hup = true → s.pipe.closed = true ∧ (r.pipeIn = none → s.pipe.unread = []))
  | .noAnswer => WithinRetries s none
  | .answer p => p.Possible s ∧ WithinRetries s (some p)

instance (blockSize : Nat) (s : Transfer) : ∀ step, Decidable (EnvOk blockSize s step)
  | .write _ => inferInstanceAs (Decidable (_ ∧ _))
  | .close => inferInstanceAs (Decidable True)
  | .deliver _ => inferInstanceAs (Decidable True)
  | .idle => inferInstanceAs (Decidable (_ ∧ _))
  | .ready _ => inferInstanceAs (Decidable (_ ∧ _ ∧ (_ → _ ∧ (_ → _))))
  | .noAnswer => inferInstanceAs (Decidable (WithinRetries s none))
  | .answer _ => inferInstanceAs (Decidable (_ ∧ _))

/-- The packet is no ACK of a block before the last one acknowledged. -/
def Packet.InTurn (s : Transfer) : Packet → Prop
  | .ack block => block = s.rxBlock
  | _ => True

instance (s : Transfer) : ∀ p : Packet, Decidable (p.InTurn s)
  | .ack _ => inferInstanceAs (Decidable (_ = _))
  | .error => inferInstanceAs (Decidable True)
  | .other => inferInstanceAs (Decidable True)

/-- At most thirteen pauses time out, and the main loop reads no ACK of a block before the last one acknowledged. -/
def Calm (s : Transfer) : TransferStep → Prop
  | .idle => s.phase = .main → s.reSend ≤ tftpMaxRetry
  | .ready r => s.phase = .main → ∀ p ∈ r.packet, p.InTurn s
  | _ => True

instance (s : Transfer) : ∀ step, Decidable (Calm s step)
  | .write _ => inferInstanceAs (Decidable True)
  | .close => inferInstanceAs (Decidable True)
  | .deliver _ => inferInstanceAs (Decidable True)
  | .idle => inferInstanceAs (Decidable (_ → _))
  | .ready r => inferInstanceAs (Decidable (_ → ∀ p ∈ r.packet, p.InTurn s))
  | .noAnswer => inferInstanceAs (Decidable True)
  | .answer _ => inferInstanceAs (Decidable True)

/-- The last block is being sent, or has been. -/
def Phase.Over : Phase → Prop
  | .final _ => True
  | .ended => True
  | _ => False

/-- **The upload is the pipe's bytes**: no assertion fails, what the server has is a front of what was written, the main
loop ends only when the writer has closed the pipe, and when the thread has ended the server has all bytes, in full
blocks and a shorter one at the end. -/
structure Uploaded (blockSize : Nat) (s : Transfer) : Prop where
  running : s.phase ≠ .aborted
  received : s.blocks.flatten <+: s.pipe.written
  closed : s.phase.Over → s.pipe.closed = true
  whole : s.phase = .ended → s.blocks.flatten = s.pipe.written ∧
    ∃ full last, s.blocks = full ++ [last] ∧ (∀ b ∈ full, b.length = blockSize) ∧ last.length < blockSize

/-! ## The invariant -/

/-- The block in `tx_pkt` has been sent. -/
def Phase.Sent : Phase → Prop
  | .main => False
  | .aborted => False
  | _ => True

/-- What holds of the thread where it is. -/
def PhaseInv (blockSize : Nat) (full : List (List UInt8)) (s : Transfer) : Prop :=
  match s.phase with
  | .main => s.cur.length < blockSize ∧ s.rxBlock = full.length
  | .sending _ => s.cur.length = blockSize
  | .final _ => s.cur.length < blockSize ∧ s.pipe.closed = true ∧ s.pipe.unread = []
  | .ended => s.cur.length < blockSize ∧ s.pipe.closed = true ∧ s.pipe.unread = [] ∧ s.blocks = full ++ [s.cur]
  | .aborted => False

/-- The blocks `full` have been acknowledged: they and the block in `tx_pkt` are a front of what was written, and only
these blocks are on their way or on the server. -/
structure InOrder (blockSize : Nat) (full : List (List UInt8)) (s : Transfer) : Prop where
  size : ∀ b ∈ full, b.length = blockSize
  txBlock : s.txBlock = full.length + 1
  read : full.flatten ++ s.cur = s.pipe.written.take s.pipe.pos
  pos_le : s.pipe.pos ≤ s.pipe.written.length
  limit : s.pipe.written.length < 65535 * blockSize
  /-- What is on its way are acknowledged blocks and the one in `tx_pkt`. -/
  sent : ∀ p ∈ s.sent, (∃ i, full[i]? = some p.data ∧ p.block = i + 1) ∨
    s.phase.Sent ∧ p = ⟨full.length + 1, s.cur⟩
  sending : s.phase.Sent → ⟨full.length + 1, s.cur⟩ ∈ s.sent
  blocks : s.blocks = full ∨ s.phase.Sent ∧ s.blocks = full ++ [s.cur]

structure TransferInv (blockSize : Nat) (full : List (List UInt8)) (s : Transfer) : Prop
    extends InOrder blockSize full s where
  phase : PhaseInv blockSize full s

section Invariant

variable {blockSize : Nat} {full : List (List UInt8)} {s : Transfer}

theorem length_flatten_full (h : ∀ b ∈ full, b.length = blockSize) :
    full.flatten.length = full.length * blockSize := by
  induction full with
  | nil => simp
  | cons b full ih =>
      rw [List.flatten_cons, List.length_append, h b List.mem_cons_self,
        ih fun b' hb' => h b' (List.mem_cons_of_mem b hb'), List.length_cons, Nat.succ_mul, Nat.add_comm]

/-- The numbers of the blocks fit into the packets. -/
theorem InOrder.txBlock_lt (h : InOrder blockSize full s) : full.length + 1 < 2 ^ 16 := by
  have hread := congrArg List.length h.read
  rw [List.length_append, length_flatten_full h.size, List.length_take, Nat.min_eq_left h.pos_le] at hread
  have hle := h.pos_le
  have hlimit := h.limit
  have hmul : full.length * blockSize < 65535 * blockSize := by omega
  have hlt := Nat.lt_of_mul_lt_mul_right hmul
  omega

theorem InOrder.txBlock_mod (h : InOrder blockSize full s) : s.txBlock % 2 ^ 16 = full.length + 1 := by
  rw [h.txBlock, Nat.mod_eq_of_lt h.txBlock_lt]

/-- What has been read is a front of what was written. -/
theorem InOrder.front_written (h : InOrder blockSize full s) : full.flatten ++ s.cur <+: s.pipe.written := by
  rw [h.read]
  exact List.take_prefix _ _

theorem TransferInv.uploaded (h : TransferInv blockSize full s) : Uploaded blockSize s := by
  have hphase := h.phase
  rw [PhaseInv] at hphase
  refine ⟨fun habort => ?_, ?_, fun hover => ?_, fun hended => ?_⟩
  · rw [habort] at hphase
    exact hphase
  · rcases h.blocks with hblocks | ⟨-, hblocks⟩
    · rw [hblocks]
      exact (List.prefix_append _ _).trans h.front_written
    · rw [hblocks, List.flatten_append, List.flatten_singleton]
      exact h.front_written
  · split at hphase
    · next hmain => rw [hmain] at hover; exact hover.elim
    · next hsending => rw [hsending] at hover; exact hover.elim
    · exact hphase.2.1
    · exact hphase.2.1
    · exact hphase.elim
  · rw [hended] at hphase
    obtain ⟨hshort, -, hunread, hblocks⟩ := hphase
    refine ⟨?_, full, s.cur, hblocks, h.size, hshort⟩
    have hall : s.pipe.written.take s.pipe.pos = s.pipe.written :=
      List.take_of_length_le (List.drop_eq_nil_iff.mp hunread)
    rw [hblocks, List.flatten_append, List.flatten_singleton, h.read, hall]

/-- Sending the block in `tx_pkt`, the first time or again. -/
theorem InOrder.sendData (h : InOrder blockSize full s) {phase : Phase} (hsent : phase.Sent)
    (hphase : PhaseInv blockSize full { s with phase := phase }) :
    TransferInv blockSize full (sendData s phase).1 := by
  refine ⟨⟨h.size, h.txBlock, h.read, h.pos_le, h.limit, fun p hp => ?_, fun _ => ?_, ?_⟩, hphase⟩
  · have hp' : p ∈ s.sent ++ [⟨s.txBlock % 2 ^ 16, s.cur⟩] := hp
    rcases List.mem_append.mp hp' with hold | hnew
    · exact (h.sent p hold).imp_right fun hcur => ⟨hsent, hcur.2⟩
    · rw [List.mem_singleton, h.txBlock_mod] at hnew
      exact Or.inr ⟨hsent, hnew⟩
  · show ⟨full.length + 1, s.cur⟩ ∈ s.sent ++ [⟨s.txBlock % 2 ^ 16, s.cur⟩]
    rw [h.txBlock_mod]
    exact List.mem_append_right s.sent List.mem_cons_self
  · exact h.blocks.imp_right fun hcur => ⟨hsent, hcur.2⟩

/-- The writer, the network and the server leave the thread where it is. -/
theorem PhaseInv.keep {s' : Transfer} (h : PhaseInv blockSize full s) (hphase : s'.phase = s.phase)
    (hcur : s'.cur = s.cur) (hrx : s'.rxBlock = s.rxBlock)
    (hpipe : s.pipe.closed = true → s.pipe.unread = [] → s'.pipe.closed = true ∧ s'.pipe.unread = [])
    (hblocks : s.phase = .ended → s.blocks = full ++ [s.cur] → s'.blocks = full ++ [s.cur]) :
    PhaseInv blockSize full s' := by
  rw [PhaseInv] at h ⊢
  rw [hphase, hcur, hrx]
  cases hs : s.phase <;> rw [hs] at h
  case main => exact h
  case sending => exact h
  case final =>
    obtain ⟨hshort, hclosed, hunread⟩ := h
    exact ⟨hshort, hpipe hclosed hunread⟩
  case ended =>
    obtain ⟨hshort, hclosed, hunread, hlast⟩ := h
    obtain ⟨hclosed', hunread'⟩ := hpipe hclosed hunread
    exact ⟨hshort, hclosed', hunread', hblocks hs hlast⟩
  case aborted => exact h

theorem TransferInv.write (h : TransferInv blockSize full s) {bytes : List UInt8}
    (henv : EnvOk blockSize s (.write bytes)) :
    TransferInv blockSize full (transferStep blockSize s (.write bytes)).1 := by
  obtain ⟨hopen, hlimit⟩ := henv
  refine ⟨⟨h.size, h.txBlock, ?_, ?_, hlimit, h.sent, h.sending, h.blocks⟩, ?_⟩
  · show full.flatten ++ s.cur = (s.pipe.written ++ bytes).take s.pipe.pos
    rw [List.take_append_of_le_length h.pos_le]
    exact h.read
  · show s.pipe.pos ≤ (s.pipe.written ++ bytes).length
    rw [List.length_append]
    exact Nat.le_add_right_of_le h.pos_le
  · refine h.phase.keep rfl rfl rfl ?_ ?_
    · intro hclosed
      rw [hopen] at hclosed
      exact (Bool.false_ne_true hclosed).elim
    · exact fun _ hlast => hlast

theorem TransferInv.close (h : TransferInv blockSize full s) :
    TransferInv blockSize full (transferStep blockSize s .close).1 := by
  refine ⟨⟨h.size, h.txBlock, h.read, h.pos_le, h.limit, h.sent, h.sending, h.blocks⟩, ?_⟩
  refine h.phase.keep rfl rfl rfl ?_ ?_
  · exact fun _ hunread => ⟨rfl, hunread⟩
  · exact fun _ hlast => hlast

/-- A server takes the block in `tx_pkt` when it comes first, and no other. -/
theorem InOrder.serverReceive (h : InOrder blockSize full s) {p : DataPacket} (hp : p ∈ s.sent) :
    serverReceive blockSize s.blocks p = s.blocks ∨
      s.phase.Sent ∧ serverReceive blockSize s.blocks p = full ++ [s.cur] := by
  rw [Tftp.serverReceive]
  split
  · next htake =>
      obtain ⟨hnext, hfull⟩ := htake
      have hlt := h.txBlock_lt
      rcases h.blocks with hblocks | ⟨hsent, hblocks⟩
      · rw [hblocks, Nat.mod_eq_of_lt hlt] at hnext
        rcases h.sent p hp with ⟨j, hj, hblock⟩ | ⟨hsent, rfl⟩
        · have hjlt := (List.getElem?_eq_some_iff.mp hj).1
          omega
        · exact Or.inr ⟨hsent, by rw [hblocks]⟩
      · -- the block in `tx_pkt` has come before
        rw [hblocks, List.length_append, List.length_singleton] at hnext
        rcases h.sent p hp with ⟨j, hj, hblock⟩ | ⟨-, rfl⟩
        · have hjlt := (List.getElem?_eq_some_iff.mp hj).1
          omega
        · dsimp only at hnext
          omega
  · exact Or.inl rfl

/-- A DATA packet reaches the server. -/
theorem TransferInv.deliver (h : TransferInv blockSize full s) (i : Nat) :
    TransferInv blockSize full (transferStep blockSize s (.deliver i)).1 := by
  rw [transferStep]
  split
  · exact h
  · next p hp =>
      have hreceive := h.serverReceive (List.mem_of_getElem? hp)
      refine ⟨⟨h.size, h.txBlock, h.read, h.pos_le, h.limit, h.sent, h.sending, ?_⟩, ?_⟩
      · rcases hreceive with hsame | hnew
        · exact hsame.symm ▸ h.blocks
        · exact Or.inr hnew
      · refine h.phase.keep rfl rfl rfl ?_ ?_
        · exact fun hclosed hunread => ⟨hclosed, hunread⟩
        · intro _ hlast
          rcases hreceive with hsame | ⟨-, hnew⟩
          · exact hsame.trans hlast
          · exact hnew

/-- A pause of the writer. -/
theorem TransferInv.idle (h : TransferInv blockSize full s) (hcalm : Calm s .idle) :
    TransferInv blockSize full (transferStep blockSize s .idle).1 := by
  rw [transferStep]
  split
  · next hmain =>
      have hfew : ¬ tftpMaxRetry < s.reSend := Nat.not_lt.mpr (hcalm hmain)
      have hphase := h.phase
      rw [mainIdle, if_neg hfew]
      refine ⟨⟨h.size, h.txBlock, h.read, h.pos_le, h.limit, h.sent, h.sending, h.blocks⟩, ?_⟩
      simp only [PhaseInv, hmain] at hphase ⊢
      exact hphase
  · exact h

/-- Bytes that are read from the pipe follow those in `tx_pkt`. -/
theorem InOrder.readPipe (h : InOrder blockSize full s) (hmain : s.phase = .main) {n : Nat}
    (havail : n ≤ s.pipe.unread.length) :
    InOrder blockSize full { s with
      cur := s.cur ++ s.pipe.unread.take n
      pipe := { s.pipe with pos := s.pipe.pos + n } } := by
  -- nothing of the block in `tx_pkt` is on its way
  have hnot : ¬ s.phase.Sent := by
    rw [hmain]
    exact id
  rw [Pipe.unread, List.length_drop] at havail
  have hle := h.pos_le
  refine ⟨h.size, h.txBlock, ?_, ?_, h.limit, fun p hp => ?_, fun hsent => absurd hsent hnot, ?_⟩
  · have htake : s.pipe.written.take (s.pipe.pos + n) = s.pipe.written.take s.pipe.pos ++
        (s.pipe.written.drop s.pipe.pos).take n := List.take_add
    show full.flatten ++ (s.cur ++ (s.pipe.written.drop s.pipe.pos).take n) =
      s.pipe.written.take (s.pipe.pos + n)
    rw [htake, ← h.read, List.append_assoc]
  · show s.pipe.pos + n ≤ s.pipe.written.length
    omega
  · exact (h.sent p hp).imp_right fun hcur => absurd hcur.1 hnot
  · exact h.blocks.imp_right fun hcur => absurd hcur.1 hnot

/-- The pipe part of the main loop. -/
theorem TransferInv.mainPipe (h : TransferInv blockSize full s) (hmain : s.phase = .main) {pipeIn : Option Nat}
    {hup : Bool} (hread : ∀ n ∈ pipeIn, PipeRead blockSize s n)
    (hhup : hup = true → s.pipe.closed = true ∧ (pipeIn = none → s.pipe.unread = [])) :
    TransferInv blockSize full (mainPipe blockSize s pipeIn hup).1 := by
  have hphase := h.phase
  simp only [PhaseInv, hmain] at hphase
  -- a pipe that is closed and read to its end leads to the last block
  have hlast : s.pipe.unread = [] → s.pipe.closed = true →
      TransferInv blockSize full (Tftp.sendData s (.final 0)).1 := by
    intro hunread hclosed
    exact h.toInOrder.sendData trivial ⟨hphase.1, hclosed, hunread⟩
  rcases pipeIn with _ | _ | n
  case some.zero =>
      obtain ⟨hunread, hclosed⟩ := hread 0 rfl
      exact hlast hunread hclosed
  case none =>
      rw [Tftp.mainPipe]
      split
      · next hup =>
          obtain ⟨hclosed, hunread⟩ := hhup hup
          exact hlast (hunread rfl) hclosed
      · exact h
  case some.succ =>
      obtain ⟨havail, hroom⟩ := hread (n + 1) rfl
      -- the block grows by what is read, and is sent when it is full
      have hnew := h.toInOrder.readPipe hmain havail
      have hlength : (s.cur ++ s.pipe.unread.take (n + 1)).length = s.cur.length + (n + 1) := by
        rw [List.length_append, List.length_take, Nat.min_eq_left havail]
      rw [Tftp.mainPipe]
      dsimp only
      split
      · next hfull => exact hnew.sendData trivial hfull
      · next hpart =>
          refine ⟨hnew, ?_⟩
          simp only [PhaseInv, hmain]
          exact ⟨by omega, hphase.2⟩

/-- What the main loop does with a packet that is no ACK. -/
theorem mainReady_of_not_acks {r : Ready} (hacks : r.acks = false) :
    mainReady blockSize s r = mainPipe blockSize s r.pipeIn r.hup := by
  rw [Ready.acks] at hacks
  rw [mainReady]
  split
  · next block hack =>
      rw [hack] at hacks
      exact (Bool.false_ne_true hacks.symm).elim
  · rfl

/-- An ACK that is in turn is for the last block acknowledged, and nothing happens. -/
theorem mainReady_of_acks {r : Ready} (hacks : r.acks = true) (hturn : ∀ p ∈ r.packet, p.InTurn s) :
    mainReady blockSize s r = (s, []) := by
  rw [Ready.acks] at hacks
  rw [mainReady]
  split
  · next block hack =>
      have hsame : block = s.rxBlock := hturn (.ack block) hack
      rw [if_neg (by omega), if_pos hsame.symm]
  · next hnot =>
      split at hacks
      · next block hack => exact absurd hack (hnot block)
      · exact (Bool.false_ne_true hacks).elim

/-- Any other ACK fails the assertion. -/
theorem mainReady_of_not_inTurn {r : Ready} (hturn : ¬ ∀ p ∈ r.packet, p.InTurn s) :
    mainReady blockSize s r = ({ s with phase := .aborted }, []) := by
  have hnot : ∀ block, r.packet = some (.ack block) → ¬ s.rxBlock = block := by
    rintro block hpacket rfl
    apply hturn
    rw [hpacket]
    intro q hq
    rw [← Option.mem_some_iff.mp hq]
    exact rfl
  rw [mainReady]
  rcases hpacket : r.packet with _ | (block | _ | _)
  case some.ack =>
      dsimp only
      rw [if_neg (hnot block hpacket), ite_self]
  all_goals exact absurd (by simp [hpacket, Packet.InTurn]) hturn

/-- An iteration of the main loop. -/
theorem TransferInv.ready (h : TransferInv blockSize full s) {r : Ready} (henv : EnvOk blockSize s (.ready r))
    (hcalm : Calm s (.ready r)) : TransferInv blockSize full (transferStep blockSize s (.ready r)).1 := by
  obtain ⟨-, hread, hhup⟩ := henv
  rw [transferStep]
  split
  · next hmain =>
      cases hacks : r.acks with
      | true =>
          rw [mainReady_of_acks hacks (hcalm hmain)]
          exact h
      | false =>
          rw [mainReady_of_not_acks hacks]
          exact h.mainPipe hmain hread hhup
  · exact h

/-- A try that fails, but not the last one. -/
theorem InOrder.retry (h : InOrder blockSize full s) {phase : Nat → Phase} {waitAck : Nat} {needSend : Bool}
    (hmore : waitAck + 1 < tftpMaxRetry) (hold : s.phase.Sent) (hsent : (phase (waitAck + 1)).Sent)
    (hphase : PhaseInv blockSize full { s with phase := phase (waitAck + 1) }) :
    TransferInv blockSize full (retry s phase waitAck needSend).1 := by
  rw [Tftp.retry, if_pos hmore]
  split
  · exact h.sendData hsent hphase
  · refine ⟨⟨h.size, h.txBlock, h.read, h.pos_le, h.limit, fun p hp => ?_, fun _ => h.sending hold, ?_⟩, hphase⟩
    · exact (h.sent p hp).imp_right fun hcur => ⟨hsent, hcur.2⟩
    · exact h.blocks.imp_right fun hcur => ⟨hsent, hcur.2⟩

/-- A poll of `tftp_send_data_pkt` ends the call, or the try has failed. It is only behind an ACK that the packet is not
sent again. -/
theorem sendPoll_eq {phase : Nat → Phase} {waitAck : Nat} {acked : Transfer} {p : Option Packet}
    (herror : p ≠ some .error) :
    EndsTry s p ∧ sendPoll s phase waitAck acked p = (acked, []) ∨
      ¬ EndsTry s p ∧ ∃ needSend, (needSend = false ↔ ∃ block, p = some (.ack block)) ∧
        sendPoll s phase waitAck acked p = retry s phase waitAck needSend := by
  rcases p with _ | (block | _ | _)
  case none => exact Or.inr ⟨by simp [EndsTry], true, by simp, rfl⟩
  case some.other => exact Or.inr ⟨by simp [EndsTry], true, by simp, rfl⟩
  case some.error => exact absurd rfl herror
  case some.ack =>
      rw [sendPoll, EndsTry, Option.some_inj, Packet.ack.injEq]
      by_cases hblock : block = s.txBlock % 2 ^ 16
      · rw [if_pos hblock]
        exact Or.inl ⟨hblock, rfl⟩
      · rw [if_neg hblock]
        exact Or.inr ⟨hblock, false, by simp, rfl⟩

/-- A poll of `tftp_send_data_pkt` leads to another try, or the ACK has come. -/
theorem sendPoll_cases {phase : Nat → Phase} {waitAck : Nat} {acked : Transfer} {p : Option Packet}
    (hpossible : ∀ q ∈ p, q.Possible s) (hmore : EndsTry s p ∨ waitAck + 1 < tftpMaxRetry) :
    (waitAck + 1 < tftpMaxRetry ∧ ∃ needSend, sendPoll s phase waitAck acked p = retry s phase waitAck needSend) ∨
      (EndsTry s p ∧ sendPoll s phase waitAck acked p = (acked, [])) := by
  have herror : p ≠ some .error := by
    rintro rfl
    exact hpossible .error rfl
  rcases sendPoll_eq herror with hends | ⟨hnot, needSend, -, hretry⟩
  · exact Or.inr hends
  · exact Or.inl ⟨hmore.resolve_left hnot, needSend, hretry⟩

/-- After a poll there is another try, or the server has the block in `tx_pkt`. -/
theorem InOrder.sendPoll (h : InOrder blockSize full s) {phase : Nat → Phase} {waitAck : Nat} {acked : Transfer}
    {p : Option Packet} (hpossible : ∀ q ∈ p, q.Possible s) (hmore : EndsTry s p ∨ waitAck + 1 < tftpMaxRetry)
    (hold : s.phase.Sent) (hsent : (phase (waitAck + 1)).Sent)
    (hphase : PhaseInv blockSize full { s with phase := phase (waitAck + 1) })
    (hacked : s.blocks = full ++ [s.cur] → ∃ full', TransferInv blockSize full' acked) :
    ∃ full', TransferInv blockSize full' (sendPoll s phase waitAck acked p).1 := by
  rcases sendPoll_cases hpossible hmore with ⟨hagain, needSend, hpoll⟩ | ⟨hends, hpoll⟩
  · rw [hpoll]
    exact ⟨full, h.retry hagain hold hsent hphase⟩
  · rw [hpoll]
    obtain ⟨-, hreceived⟩ := hpossible (.ack (s.txBlock % 2 ^ 16)) hends
    apply hacked
    rcases h.blocks with hblocks | ⟨-, hblocks⟩
    · -- the server acknowledges only what it has
      rw [hblocks, h.txBlock_mod] at hreceived
      omega
    · exact hblocks

/-- Behind its ACK, the block in `tx_pkt` is one of the acknowledged ones. -/
theorem TransferInv.blockAcked (h : TransferInv blockSize full s) (hsize : 0 < blockSize)
    (hfull : s.cur.length = blockSize) (hblocks : s.blocks = full ++ [s.cur]) :
    TransferInv blockSize (full ++ [s.cur]) (blockAcked s) := by
  have hlength : (full ++ [s.cur]).length = full.length + 1 := List.length_append
  refine ⟨⟨?_, ?_, ?_, h.pos_le, h.limit, fun p hp => Or.inl ?_, fun hsent => hsent.elim, Or.inl hblocks⟩, ?_⟩
  -- all acknowledged blocks are full
  · intro b hb
    rcases List.mem_append.mp hb with hold | hnew
    · exact h.size b hold
    · rw [List.mem_singleton.mp hnew]
      exact hfull
  · show s.txBlock + 1 = (full ++ [s.cur]).length + 1
    rw [hlength, h.txBlock]
  · show (full ++ [s.cur]).flatten ++ [] = s.pipe.written.take s.pipe.pos
    rw [List.flatten_append, List.flatten_singleton, List.append_nil, h.read]
  · rcases h.sent p hp with ⟨i, hi, hblock⟩ | ⟨-, rfl⟩
    · refine ⟨i, ?_, hblock⟩
      rw [List.getElem?_append_left (List.getElem?_eq_some_iff.mp hi).1, hi]
    · refine ⟨full.length, ?_, rfl⟩
      rw [List.getElem?_append_right (Nat.le_refl _), Nat.sub_self, List.getElem?_cons_zero]
  · show ([] : List UInt8).length < blockSize ∧ s.txBlock % 2 ^ 16 = (full ++ [s.cur]).length
    rw [hlength]
    exact ⟨hsize, h.txBlock_mod⟩

/-- A poll of `tftp_send_data_pkt`. -/
theorem TransferInv.sendStep (h : TransferInv blockSize full s) (hsize : 0 < blockSize) {p : Option Packet}
    (hpossible : ∀ q ∈ p, q.Possible s) (hmore : WithinRetries s p) :
    ∃ full', TransferInv blockSize full' (sendStep s p).1 := by
  have hphase := h.phase
  rw [PhaseInv] at hphase
  rw [WithinRetries] at hmore
  cases hs : s.phase with
  | main =>
      rw [Tftp.sendStep, hs]
      exact ⟨full, h⟩
  | ended =>
      rw [Tftp.sendStep, hs]
      exact ⟨full, h⟩
  | aborted =>
      rw [hs] at hphase
      exact hphase.elim
  | sending waitAck =>
      rw [hs] at hphase hmore
      rw [Tftp.sendStep, hs]
      refine h.toInOrder.sendPoll hpossible hmore (by rw [hs]; trivial) trivial hphase fun hblocks => ?_
      exact ⟨full ++ [s.cur], h.blockAcked hsize hphase hblocks⟩
  | final waitAck =>
      rw [hs] at hphase hmore
      rw [Tftp.sendStep, hs]
      refine h.toInOrder.sendPoll hpossible hmore (by rw [hs]; trivial) trivial hphase fun hblocks => ⟨full, ?_⟩
      obtain ⟨hshort, hclosed, hunread⟩ := hphase
      refine ⟨⟨h.size, h.txBlock, h.read, h.pos_le, h.limit, fun q hq => ?_, fun _ => h.sending (by rw [hs]; trivial),
        Or.inr ⟨trivial, hblocks⟩⟩, ?_⟩
      · exact (h.sent q hq).imp_right fun hcur => ⟨trivial, hcur.2⟩
      · exact ⟨hshort, hclosed, hunread, hblocks⟩

/-- **Every step keeps the invariant.** -/
theorem TransferInv.step (h : TransferInv blockSize full s) (hsize : 0 < blockSize) {step : TransferStep}
    (henv : EnvOk blockSize s step) (hcalm : Calm s step) :
    ∃ full', TransferInv blockSize full' (transferStep blockSize s step).1 := by
  cases step with
  | write bytes => exact ⟨full, h.write henv⟩
  | close => exact ⟨full, h.close⟩
  | deliver i => exact ⟨full, h.deliver i⟩
  | idle => exact ⟨full, h.idle hcalm⟩
  | ready r => exact ⟨full, h.ready henv hcalm⟩
  | noAnswer => exact h.sendStep hsize (by simp) henv
  | answer p =>
      refine h.sendStep hsize (fun q hq => ?_) henv.2
      rw [← Option.mem_some_iff.mp hq]
      exact henv.1

end Invariant

/-- The thread starts in order. -/
theorem transferInv_start {blockSize : Nat} (hsize : 0 < blockSize) : TransferInv blockSize [] transferStart := by
  refine ⟨⟨by simp, rfl, rfl, Nat.le_refl 0, ?_, by simp [transferStart], fun hsent => hsent.elim, Or.inl rfl⟩,
    hsize, rfl⟩
  exact Nat.mul_pos (by omega) hsize

end QLog.Tftp
