import QLog.Unisoc.CatchBlueScreen

/-! # A region of the command table

Between the opening of a region's file and the next entry of the table, the dump thread runs the loop of the
blue-screen dump: every step of it, of the status queries and of the exit request is answered by steps of that loop,
with the same requests, the same AP logs and the same bytes saved. So what is proved of the loop holds of every region
of the table. -/

namespace QLog.BlueScreen

open Library
open Ec800g (ReadResult RegionCmd Cmd)

/-- The dump thread is in the loop over a region. -/
def CatchPc.InLoop : CatchPc → Prop
  | .head _ => True
  | .sending _ => True
  | .blockReceiving _ => True
  | .blockReceived _ _ => True
  | _ => False

/-- A step, with the message that a read brings where a block is received. -/
abbrev RegionStep := CatchStep × Message

/-- The table's step. -/
def regionStep (s : CatchState) (step : RegionStep) : CatchState × List CatchEvent := catchStep s step.1

/-- The steps of the loop that answer a step of the table. The test of the exit request is none of them. -/
def loopSteps (s : CatchState) : RegionStep → List ThreadStep
  | (.query addr, _) => [.query addr]
  | (.exit, _) => []
  | (.dump inp, msg) =>
      match s.pc with
      | .head d => if d.saveSize < d.region.size then [] else [.dump true]
      | .sending _ => [.dump inp.sent]
      | .blockReceiving _ => [.receive msg]
      | .blockReceived _ _ => [.dump true]
      | _ => []

/-- What the loop has to say about an event. -/
def CatchEvent.ofLoop : CatchEvent → BlueScreenEvent
  | .sent bytes => .sent bytes
  | .apLog pbuf rc => .apLog (pbuf.take rc)
  | .save data => .save data

/-- In the loop, a read does not fail, and brings the bytes of the message. -/
def ReadsMessage (s : CatchState) : RegionStep → Prop
  | (.dump inp, msg) =>
      match s.pc with
      | .blockReceiving _ => ∃ le, recvCmd s.exit inp.read = .bytes (messageBytes s.link.sent msg) le
      | _ => True
  | _ => True

/-- The loop goes on, with such reads. -/
def LoopGoesOn (s : CatchState) (step : RegionStep) : Prop := s.pc.InLoop ∧ ReadsMessage s step

/-- The message is one the device can send. -/
def DeviceReads (mem : Nat → UInt8) (s : CatchState) : RegionStep → Prop
  | (.dump _, msg) =>
      match s.pc with
      | .blockReceiving _ => MessageOk mem s.link.sent msg
      | _ => True
  | _ => True

/-- Where the dump thread is while the loop over `r` is in the state `a`. -/
def CatchPc.At (r : RegionCmd) (table : List Cmd) (a : RegionDump) : CatchPc → Prop
  | .head d => d = ⟨r, table, a.baseTmp, a.saveSize⟩ ∧ a.phase = .head
  | .sending d => d = ⟨r, table, a.baseTmp, a.saveSize⟩ ∧ a.phase = .head ∧ a.saveSize < r.size
  | .blockReceiving d => d = ⟨r, table, a.baseTmp, a.saveSize⟩ ∧ a.phase = .receiving
  | .blockReceived d read => d = ⟨r, table, a.baseTmp, a.saveSize⟩ ∧ ∃ answers, a.phase = .received read.rc answers
  | .entry rest => rest = table ∧ a.phase = .ended
  | .returned _ => True
  | _ => False

/-- It does not depend on the ids and the buffer. -/
theorem CatchPc.At.congr {r : RegionCmd} {table : List Cmd} {a a' : RegionDump} {pc : CatchPc} (h : pc.At r table a)
    (hbase : a'.baseTmp = a.baseTmp) (hsize : a'.saveSize = a.saveSize) (hphase : a'.phase = a.phase) :
    pc.At r table a' := by
  revert h
  cases pc <;> simp only [CatchPc.At, hbase, hsize, hphase, imp_self]

/-- The table is at a region whose loop is in the state `a`, with the same link and the same buffer. -/
structure InRegion (r : RegionCmd) (table : List Cmd) (s : CatchState) (a : RegionDump) : Prop where
  link : a.link = s.link
  pbuf : a.pbuf = s.pbuf
  pc : s.pc.At r table a

/-- The loop's state at the opening of the file. -/
def loopStart (s : CatchState) (base : Nat) : RegionDump where
  link := s.link
  pbuf := s.pbuf
  baseTmp := base
  saveSize := 0
  phase := .head

section Simulation

variable {r : RegionCmd} {table : List Cmd} {s : CatchState} {a : RegionDump}

theorem inRegion_loopStart (h : s.pc = .head ⟨r, table, r.base, 0⟩) : InRegion r table s (loopStart s r.base) := by
  refine ⟨rfl, rfl, ?_⟩
  rw [h]
  exact ⟨rfl, rfl⟩

/-- Two results that say the same of a region: the loop is in it still, and what has been put out is the same. -/
def SameResult (r : RegionCmd) (table : List Cmd) (inTable : CatchState × List CatchEvent)
    (inLoop : RegionDump × List BlueScreenEvent) : Prop :=
  InRegion r table inTable.1 inLoop.1 ∧ inTable.2.map CatchEvent.ofLoop = inLoop.2

/-- A step is answered. -/
def Answered (r : RegionCmd) (table : List Cmd) (s : CatchState) (a : RegionDump) (step : RegionStep) : Prop :=
  SameResult r table (regionStep s step) (runSteps (blueScreenStep r.size) a (loopSteps s step))

/-- A status query is one of the loop. -/
theorem InRegion.query (h : InRegion r table s a) (addr : Nat) (msg : Message) :
    Answered r table s a (.query addr, msg) := by
  rw [Answered, loopSteps, runSteps_singleton, blueScreenStep, h.link]
  exact ⟨⟨rfl, h.pbuf, h.pc.congr rfl rfl rfl⟩, rfl⟩

/-- The exit request is not seen by the loop. -/
theorem InRegion.exit (h : InRegion r table s a) (msg : Message) : Answered r table s a (.exit, msg) :=
  ⟨⟨h.link, h.pbuf, h.pc⟩, rfl⟩

section Dump

variable {d : RegionLoop} {inp : CatchInput} {msg : Message}

/-- A read that has not failed. -/
theorem receive_bytes {bytes : List UInt8} {le : bytes.length ≤ Ec800g.qlogBufSize} {received : ReadResult → CatchPc} :
    s.receive (.bytes bytes le) received =
      if AnswerPattern (overwrite s.pbuf 0 bytes) then
        if bytes.length < 1 then ({ s with pbuf := overwrite s.pbuf 0 bytes }, [])
        else ({ s with pbuf := overwrite s.pbuf 0 bytes, pc := received (.bytes bytes le) }, [])
      else ({ s with pbuf := overwrite s.pbuf 0 bytes }, [.apLog (overwrite s.pbuf 0 bytes) bytes.length]) := rfl

/-- A receive of a block is one of the loop. -/
theorem InRegion.receive (h : InRegion r table s a) (hpc : s.pc = .blockReceiving d)
    (hread : ∃ le, recvCmd s.exit inp.read = .bytes (messageBytes s.link.sent msg) le) :
    Answered r table s a (.dump inp, msg) := by
  obtain ⟨le, hread⟩ := hread
  have hat := h.pc
  rw [hpc] at hat
  obtain ⟨rfl, hphase⟩ := hat
  have hloop : loopSteps s (.dump inp, msg) = [.receive msg] := by rw [loopSteps, hpc]
  have hdump : regionStep s (.dump inp, msg) =
      s.receive (.bytes (messageBytes s.link.sent msg) le) (.blockReceived ⟨r, table, a.baseTmp, a.saveSize⟩) := by
    rw [regionStep, catchStep, CatchState.dump, hpc]
    dsimp only
    rw [hread]
  rw [Answered, hloop, hdump, runSteps_singleton, blueScreenStep, receiveStep, hphase, receive_bytes, h.link, h.pbuf]
  dsimp only
  by_cases hpattern : AnswerPattern (overwrite s.pbuf 0 (messageBytes s.link.sent msg))
  · rw [if_pos hpattern, if_pos hpattern]
    split
    · exact ⟨⟨rfl, rfl, h.pc.congr rfl rfl hphase.symm⟩, rfl⟩
    · exact ⟨⟨rfl, rfl, rfl, _, rfl⟩, rfl⟩
  · rw [if_neg hpattern, if_neg hpattern]
    refine ⟨⟨rfl, rfl, h.pc.congr rfl rfl hphase.symm⟩, ?_⟩
    -- the log is told the length of what has been read
    rw [List.map_singleton, CatchEvent.ofLoop, overwrite_zero, List.take_left]

/-- The loop's condition; where the exit is requested, the loop is left at once. -/
theorem InRegion.head (h : InRegion r table s a) (hpc : s.pc = .head d) : Answered r table s a (.dump inp, msg) := by
  have hat := h.pc
  rw [hpc] at hat
  obtain ⟨rfl, hphase⟩ := hat
  rw [Answered, regionStep, catchStep, CatchState.dump, loopSteps, hpc]
  dsimp only
  split
  · next hmore =>
      refine ⟨⟨h.link, h.pbuf, ?_⟩, rfl⟩
      dsimp only
      split
      · trivial
      · exact ⟨rfl, hphase, hmore⟩
  · next hover =>
      rw [runSteps_singleton, blueScreenStep, dumpStep, hphase]
      dsimp only
      rw [if_neg hover]
      exact ⟨⟨h.link, h.pbuf, rfl, rfl⟩, rfl⟩

/-- The request for a block is the one of the loop. -/
theorem InRegion.sending (h : InRegion r table s a) (hpc : s.pc = .sending d) :
    Answered r table s a (.dump inp, msg) := by
  have hat := h.pc
  rw [hpc] at hat
  obtain ⟨rfl, hphase, hmore⟩ := hat
  have hsize : RegionLoop.blockSize ⟨r, table, a.baseTmp, a.saveSize⟩ = blockSize r.size a := rfl
  rw [Answered, regionStep, catchStep, CatchState.dump, loopSteps, hpc]
  dsimp only
  rw [runSteps_singleton, blueScreenStep, dumpStep, hphase]
  dsimp only
  rw [if_pos hmore, CatchState.send, hsize, h.link]
  refine ⟨⟨rfl, h.pbuf, ?_⟩, rfl⟩
  cases inp.sent
  · trivial
  · exact ⟨rfl, rfl⟩

/-- The check of a block is the one of the loop; where the block cannot be saved, the dump is given up. -/
theorem InRegion.received (h : InRegion r table s a) {read : ReadResult} (hpc : s.pc = .blockReceived d read) :
    Answered r table s a (.dump inp, msg) := by
  have hat := h.pc
  rw [hpc] at hat
  obtain ⟨rfl, answers, hphase⟩ := hat
  rw [Answered, regionStep, catchStep, CatchState.dump, loopSteps, hpc]
  dsimp only
  rw [runSteps_singleton, blueScreenStep, dumpStep, hphase]
  dsimp only
  rw [h.link, h.pbuf]
  split
  · exact ⟨⟨rfl, rfl, rfl, rfl⟩, rfl⟩
  · refine ⟨⟨rfl, rfl, ?_⟩, rfl⟩
    cases inp.saved
    · trivial
    · exact ⟨rfl, rfl⟩

end Dump

/-- Every step in the loop is answered. -/
theorem InRegion.answered (h : InRegion r table s a) (step : RegionStep) (hgoes : LoopGoesOn s step) :
    Answered r table s a step := by
  obtain ⟨step, msg⟩ := step
  obtain ⟨hloop, hread⟩ := hgoes
  cases step with
  | query addr => exact h.query addr msg
  | exit => exact h.exit msg
  | dump inp =>
      rw [ReadsMessage] at hread
      cases hpc : s.pc with
      | head d => exact h.head hpc
      | sending d => exact h.sending hpc
      | blockReceiving d =>
          rw [hpc] at hread
          exact h.receive hpc hread
      | blockReceived d read => exact h.received hpc
      | _ =>
          rw [hpc] at hloop
          exact hloop.elim

end Simulation

/-! ## Whole regions -/

section Whole

variable {r : RegionCmd} {table : List Cmd} {s : CatchState} {steps : List RegionStep}

/-- The answers to a run from the opening of the file. -/
def loopRunSteps (s : CatchState) (steps : List RegionStep) : List ThreadStep :=
  answeringSteps regionStep loopSteps s steps

/-- **The loop over a region is that of the blue-screen dump**: as long as it goes on, a run of the table is answered by
one of the loop, with the same requests, AP logs and saved bytes. -/
theorem catchRegion_simulation (hopened : s.pc = .head ⟨r, table, r.base, 0⟩)
    (hgoes : Along regionStep LoopGoesOn s steps) :
    SameResult r table (runSteps regionStep s steps)
      (runSteps (blueScreenStep r.size) (loopStart s r.base) (loopRunSteps s steps)) :=
  runSteps_simulation regionStep (blueScreenStep r.size) loopSteps (fun _ _ step h => h.answered step) s _ steps
    (inRegion_loopStart hopened) hgoes

/-- What the device can send in the table, it can send in the loop. -/
theorem deviceStep_loopSteps {mem : Nat → UInt8} {a : RegionDump} (h : InRegion r table s a) (step : RegionStep)
    (hdevice : DeviceReads mem s step) : Along (blueScreenStep r.size) (DeviceStep mem) a (loopSteps s step) := by
  obtain ⟨step, msg⟩ := step
  cases step with
  | query addr => exact ⟨trivial, trivial⟩
  | exit => trivial
  | dump inp =>
      rw [DeviceReads] at hdevice
      rw [loopSteps]
      cases hpc : s.pc with
      | head d =>
          dsimp only
          split
          · trivial
          · exact ⟨trivial, trivial⟩
      | sending d => exact ⟨trivial, trivial⟩
      | blockReceiving d =>
          rw [hpc] at hdevice
          refine ⟨?_, trivial⟩
          rw [DeviceStep, h.link]
          exact hdevice
      | blockReceived d read => exact ⟨trivial, trivial⟩
      | _ => trivial

/-- **Every region of the table is dumped exactly**: whatever has been dumped before, where the loop over a region ends
and the table goes on, the file holds the region. No read fails in the loop, every message is one the device can send,
and an answer is compared with the current id before the ids have gone round. -/
theorem catchRegion_exact {mem : Nat → UInt8} (hbase : r.base < 2 ^ 32) (hsize : r.size < 2 ^ 32)
    {before : List Request} {pbuf : List UInt8} {cmds : List Cmd} {earlier : List CatchStep}
    (hs : (runSteps catchStep (catchStart before pbuf cmds) earlier).1 = s)
    (hopened : s.pc = .head ⟨r, table, r.base, 0⟩) (hgoes : Along regionStep LoopGoesOn s steps)
    (hdevice : Along regionStep (DeviceReads mem) s steps)
    (htime : Along (blueScreenStep r.size) CheckedInTime (loopStart s r.base) (loopRunSteps s steps))
    (hended : (runSteps regionStep s steps).1.pc = .entry table) :
    savedBytes ((runSteps regionStep s steps).2.map CatchEvent.ofLoop) = memoryRange (memory32 mem) r.base r.size := by
  have hlink : LinkOk s.link := by
    rw [← hs]
    exact (runSteps_invariant catchStep CatchInv.step _ earlier (CatchInv.start before pbuf cmds)).link
  obtain ⟨hregion, hout⟩ := catchRegion_simulation hopened hgoes
  have hphase := hregion.pc
  rw [hended] at hphase
  have hloop : Along (blueScreenStep r.size) (DeviceStep mem) (loopStart s r.base) (loopRunSteps s steps) :=
    along_answeringSteps regionStep (blueScreenStep r.size) loopSteps
      (fun _ _ step h hcond => (h.answered step hcond.1).1)
      (fun _ _ step h hcond => deviceStep_loopSteps h step hcond.2) s _ steps (inRegion_loopStart hopened)
      (along_and regionStep s steps hgoes hdevice)
  rw [hout]
  exact savedBytes_of_ended hbase hsize hlink hloop htime hphase.2

end Whole

/-- A region of two bytes. -/
def twoBytes : RegionCmd := ⟨"psram".toList, 0x80000000, 2, 0⟩

/-- A status query is sent between the test of the exit request and the request for the block. -/
theorem catchRegion_exact_twoBytes :
    savedBytes ((runSteps regionStep
      (runSteps catchStep (catchStart [.query 0] [0xad, 0x00, 0x03, 0xff, 0x01, 0x01] [.region twoBytes])
        [dumpReads [] (by decide), dumpReads [] (by decide), dumpReads [] (by decide)]).1
      [(dumpReads [] (by decide), .nothing), (.query 0, .nothing), (dumpReads [] (by decide), .nothing),
        (dumpReads (answerBytes 3 [0, 1] 0) (by decide), .answer 2 [0, 1] 0), (dumpReads [] (by decide), .nothing),
        (dumpReads [] (by decide), .nothing)]).2.map CatchEvent.ofLoop) =
      memoryRange (memory32 UInt8.ofNat) twoBytes.base twoBytes.size :=
  catchRegion_exact (by decide) (by decide) rfl rfl
    ⟨⟨trivial, trivial⟩, ⟨trivial, trivial⟩, ⟨trivial, trivial⟩, ⟨trivial, by decide, rfl⟩, ⟨trivial, trivial⟩,
      ⟨trivial, trivial⟩, trivial⟩
    ⟨trivial, trivial, trivial, ⟨(3, .readBlock 0x80000000 2), rfl, by decide⟩, trivial, trivial, trivial⟩
    (by decide) rfl

end QLog.BlueScreen
