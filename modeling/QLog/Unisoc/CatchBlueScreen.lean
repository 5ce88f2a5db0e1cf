import Mathlib.Data.List.GetD
import QLog.Unisoc.BlueScreen
import QLog.Unisoc.Requires

/-! # The command table of the EXX00U

`unisoc_exx00u_catch_blue_screen` goes through a table of regions. Where a require entry stands behind one, the value of
a register decides whether the region is dumped. The thread that asks for the status goes on during all this, and
`qlog_exit_requested` can be raised at any time.

A step is what the dump thread does between two points at which the other thread or the exit request can make a
difference: a test of the flag, a request, a read, a check. -/

namespace QLog.BlueScreen

open Library
open Ec800g (ReadResult RegionCmd RequireCmd Cmd)

/-- The four bytes of a register in an answer, the highest first. -/
def answerValue (buff : List UInt8) : Nat :=
  (buff.getD 5 0).toNat * 2 ^ 24 + (buff.getD 6 0).toNat * 2 ^ 16 + (buff.getD 7 0).toNat * 2 ^ 8 +
    (buff.getD 8 0).toNat

/-- `checkRead`: what it stores in `*pvalue`, if anything. -/
def checkRead (rid : Nat) (buff : List UInt8) (rc : Nat) : Option Nat :=
  if rc < 10 then none
  else if (buff.getD 4 0).toNat ≠ rid then none
  else some (answerValue buff)

/-- The variables of the loop over a region, and the entries behind it. -/
structure RegionLoop where
  region : RegionCmd
  table : List Cmd
  baseTmp : Nat
  saveSize : Nat

/-- The size of the next block. -/
def RegionLoop.blockSize (d : RegionLoop) : Nat :=
  if 0x0800 < d.region.size - d.saveSize then 0x0800 else d.region.size - d.saveSize

/-- The loop after a block of `n` bytes. -/
def RegionLoop.next (d : RegionLoop) (n : Nat) : RegionLoop :=
  { d with baseTmp := (d.baseTmp + n) % 2 ^ 32, saveSize := (d.saveSize + n) % 2 ^ 32 }

/-- Where the dump thread is. -/
inductive CatchPc
  /-- In front of the rest of the table. -/
  | entry (table : List Cmd)
  /-- At an entry, behind the test of the exit request. -/
  | decide (cmd : Cmd) (table : List Cmd)
  /-- In `unisoc_exx00u_recv_cmd_deal`, for a register. -/
  | readReceiving (r : RegionCmd) (q : RequireCmd) (table : List Cmd)
  /-- Before `checkRead` and the comparison. -/
  | readReceived (r : RegionCmd) (q : RequireCmd) (table : List Cmd) (read : ReadResult)
  /-- Before the file is opened. -/
  | opening (r : RegionCmd) (table : List Cmd)
  /-- Before the condition of the loop over a region. -/
  | head (d : RegionLoop)
  /-- Behind the test of the exit request in this loop. -/
  | sending (d : RegionLoop)
  /-- In `unisoc_exx00u_recv_cmd_deal`, for a block. -/
  | blockReceiving (d : RegionLoop)
  /-- Before `checkReadBlock`. -/
  | blockReceived (d : RegionLoop) (read : ReadResult)
  | returned (ret : Int)

/-- The variables of `unisoc_exx00u_catch_blue_screen`, with `qlog_exit_requested`. -/
structure CatchState where
  link : Link
  pbuf : List UInt8
  rvalue : Nat
  exit : Bool
  pc : CatchPc

/-- What a step of the dump thread meets. -/
structure CatchInput where
  /-- All bytes of a request are sent. -/
  sent : Bool
  read : ReadResult
  /-- The file can be opened. -/
  opened : Bool
  /-- All bytes of a block are saved. -/
  saved : Bool

inductive CatchEvent
  | sent (bytes : List UInt8)
  /-- `tmp_unisco_ops->logfile_save` of `rc` bytes. -/
  | apLog (pbuf : List UInt8) (rc : Nat)
  /-- `qlog_logfile_save` to the dump file. -/
  | save (data : List UInt8)

/-- A step of one of the threads. -/
inductive CatchStep
  /-- The status-query thread sends a query. -/
  | query (addr : Nat)
  /-- `qlog_exit_requested = 1` -/
  | exit
  | dump (inp : CatchInput)

/-- The entry behind a region, if it is a require entry. -/
def nextRequire : List Cmd → Option RequireCmd
  | .require q :: _ => some q
  | _ => none

/-- `unisoc_exx00u_recv_cmd`: nothing is read any more when an exit is requested. -/
def recvCmd (exit : Bool) (read : ReadResult) : ReadResult := if exit then .bytes [] (Nat.zero_le _) else read

/-- A request is sent. -/
def CatchState.send (s : CatchState) (req : Request) (pc : CatchPc) : CatchState × List CatchEvent :=
  ({ s with link := sendCmdComplete s.link req, pc := pc }, [.sent (requestBytes (nextRid s.link.rid) req)])

/-- A round of the loop of `unisoc_exx00u_recv_cmd_deal`, which goes on to `received` or once more. -/
def CatchState.receive (s : CatchState) (read : ReadResult) (received : ReadResult → CatchPc) :
    CatchState × List CatchEvent :=
  let pbuf := overwrite s.pbuf 0 read.chunk
  if AnswerPattern pbuf then
    if read.rc < 1 then ({ s with pbuf := pbuf }, [])
    else ({ s with pbuf := pbuf, pc := received read }, [])
  else ({ s with pbuf := pbuf }, [.apLog pbuf read.rc])

/-- A step of the dump thread. -/
def CatchState.dump (s : CatchState) (inp : CatchInput) : CatchState × List CatchEvent :=
  match s.pc with
  | .entry [] => ({ s with pc := .returned 1 }, [])
  | .entry (cmd :: table) => ({ s with pc := if s.exit then .returned (-1) else .decide cmd table }, [])
  | .decide (.require _) table => ({ s with pc := .entry table }, [])
  | .decide (.region r) table =>
      if r.skip = 1 then ({ s with pc := .entry table }, [])
      else
        match nextRequire table with
        | none => ({ s with pc := .opening r table }, [])
        -- whether the request has been sent is not looked at
        | some q => s.send (.read32 q.addr) (.readReceiving r q table)
  | .readReceiving r q table => s.receive (recvCmd s.exit inp.read) (.readReceived r q table)
  | .readReceived r q table read =>
      -- `rvalue` is what it was where `checkRead` refuses the answer
      let rvalue := (checkRead s.link.rid s.pbuf read.rc).getD s.rvalue
      ({ s with rvalue := rvalue, pc := if q.Passes rvalue then .opening r table else .entry table }, [])
  | .opening r table => ({ s with pc := if inp.opened then .head ⟨r, table, r.base, 0⟩ else .returned (-1) }, [])
  | .head d =>
      if d.saveSize < d.region.size then ({ s with pc := if s.exit then .returned (-1) else .sending d }, [])
      else ({ s with pc := .entry d.table }, [])
  | .sending d => s.send (.readBlock d.baseTmp d.blockSize) (if inp.sent then .blockReceiving d else .returned (-1))
  | .blockReceiving d => s.receive (recvCmd s.exit inp.read) (.blockReceived d)
  | .blockReceived d read =>
      let n := checkReadBlock s.link.rid s.pbuf read.rc
      if n = 0 then ({ s with pc := .head d }, [])
      else
        ({ s with pc := if inp.saved then .head (d.next n) else .returned (-1) }, [.save (window s.pbuf 5 (5 + n))])
  | .returned _ => (s, [])

def catchStep (s : CatchState) : CatchStep → CatchState × List CatchEvent
  | .query addr => ({ s with link := sendCmdComplete s.link (.query addr) },
      [.sent (requestBytes (nextRid s.link.rid) (.query addr))])
  | .exit => ({ s with exit := true }, [])
  | .dump inp => s.dump inp

/-- `unisoc_exx00u_catch_blue_screen` is called with an announcement of a blue screen in `pbuf`. -/
def Announces (rid : Nat) (pbuf : List UInt8) : Prop :=
  pbuf.take 4 = [0xad, 0x00, 0x03, 0xff] ∧ (pbuf.getD 4 0).toNat = rid ∧ pbuf[5]? = some 0x01

instance (rid : Nat) (pbuf : List UInt8) : Decidable (Announces rid pbuf) := inferInstanceAs (Decidable (_ ∧ _))

/-- The call, after some requests of the time before. -/
def catchStart (before : List Request) (pbuf : List UInt8) (table : List Cmd) : CatchState where
  link := linkAfter before
  pbuf := pbuf
  rvalue := 0
  exit := false
  pc := if Announces (linkAfter before).rid pbuf then .entry table else .returned 0

/-! ## The answer to the question -/

/-- A `read32` request, and how many requests have been sent after it. -/
structure ReadRequest where
  id : Nat
  addr : Nat
  since : Nat

/-- The last `read32` request among some, the last of them first. -/
def findRead32 : List (Nat × Request) → Option ReadRequest
  | [] => none
  | (id, .read32 addr) :: _ => some ⟨id, addr, 0⟩
  | (_, .query _) :: older => (findRead32 older).map fun asked => { asked with since := asked.since + 1 }
  | (_, .readBlock _ _) :: older => (findRead32 older).map fun asked => { asked with since := asked.since + 1 }

/-- The last `read32` request. -/
def Link.lastRead32 (l : Link) : Option ReadRequest := findRead32 l.sent.reverse

/-- The require entry whose register is asked for. -/
def CatchPc.asks : CatchPc → Option RequireCmd
  | .readReceiving _ q _ => some q
  | .readReceived _ q _ _ => some q
  | _ => none

/-- What the next step compares `rvalue` with, and the read in front of it. -/
def CatchPc.comparison : CatchPc → Option (RequireCmd × ReadResult)
  | .readReceived _ q _ read => some (q, read)
  | _ => none

/-- An answer that echoes `id`. -/
def EchoesId (id : Nat) (chunk : List UInt8) : Prop :=
  10 ≤ chunk.length ∧ AnswerPattern chunk ∧ (chunk.getD 4 0).toNat = id

instance (id : Nat) (chunk : List UInt8) : Decidable (EchoesId id chunk) := inferInstanceAs (Decidable (_ ∧ _))

/-- Where `rvalue` is compared with a require entry, it is the value of an answer that echoes the id of the `read32`
request for this entry. -/
def ComparesOwnAnswer (s : CatchState) : CatchStep → Prop
  | .dump _ => ∀ c ∈ s.pc.comparison, ∃ asked ∈ s.link.lastRead32, asked.addr = c.1.addr ∧
      EchoesId asked.id c.2.chunk ∧ checkRead s.link.rid s.pbuf c.2.rc = some (answerValue c.2.chunk)
  | _ => True

/-- What has been read is long enough and echoes the id of the last `read32` request, and since then no status query has
been sent, or so many that the ids have gone round. -/
def AnsweredInTime (s : CatchState) : CatchStep → Prop
  | .dump _ => ∀ c ∈ s.pc.comparison, ∃ asked ∈ s.link.lastRead32,
      10 ≤ c.2.chunk.length ∧ (c.2.chunk.getD 4 0).toNat = asked.id ∧ 255 ∣ asked.since
  | _ => True

instance (s : CatchState) : ∀ step, Decidable (ComparesOwnAnswer s step)
  | .query _ => isTrue trivial
  | .exit => isTrue trivial
  | .dump _ => inferInstanceAs (Decidable (∀ _ ∈ _, ∃ _ ∈ _, _))

section Requests

variable {l : Link} {asked : ReadRequest}

theorem lastRead32_read32 (l : Link) (addr : Nat) :
    (sendCmdComplete l (.read32 addr)).lastRead32 = some ⟨nextRid l.rid, addr, 0⟩ := by
  rw [Link.lastRead32, sendCmdComplete, List.reverse_append]
  rfl

theorem lastRead32_query (h : l.lastRead32 = some asked) (addr : Nat) :
    (sendCmdComplete l (.query addr)).lastRead32 = some { asked with since := asked.since + 1 } := by
  rw [Link.lastRead32] at h
  rw [Link.lastRead32, sendCmdComplete, List.reverse_append, List.reverse_singleton, List.singleton_append, findRead32,
    h]
  rfl

/-- Where the request is. -/
theorem findRead32_split {sent : List (Nat × Request)} (h : findRead32 sent = some asked) :
    ∃ newer older, sent = newer ++ (asked.id, .read32 asked.addr) :: older ∧ newer.length = asked.since := by
  induction sent generalizing asked with
  | nil => cases h
  | cons entry older ih =>
      obtain ⟨id, req⟩ := entry
      cases req with
      | query addr =>
          obtain ⟨asked', hasked', rfl⟩ := Option.map_eq_some_iff.mp h
          obtain ⟨newer, rest, rfl, hlength⟩ := ih hasked'
          exact ⟨(id, .query addr) :: newer, rest, rfl, congrArg (· + 1) hlength⟩
      | readBlock addr size =>
          obtain ⟨asked', hasked', rfl⟩ := Option.map_eq_some_iff.mp h
          obtain ⟨newer, rest, rfl, hlength⟩ := ih hasked'
          exact ⟨(id, .readBlock addr size) :: newer, rest, rfl, congrArg (· + 1) hlength⟩
      | read32 addr =>
          obtain rfl := Option.some.inj h
          exact ⟨[], older, rfl, rfl⟩

/-- The current id is that of the last `read32` request exactly if the ids have gone round since. -/
theorem rid_eq_iff (hl : LinkOk l) (h : l.lastRead32 = some asked) : l.rid = asked.id ↔ 255 ∣ asked.since := by
  obtain ⟨newer, older, hsplit, hsince⟩ := findRead32_split h
  have hsent : l.sent = older.reverse ++ (asked.id, .read32 asked.addr) :: newer.reverse := by
    rw [← List.reverse_reverse l.sent, hsplit]
    simp
  have hlength : l.sent.length = older.length + asked.since + 1 := by
    rw [hsent, ← hsince, List.length_append, List.length_cons, List.length_reverse, List.length_reverse]
    omega
  have hid : asked.id = nextRid^[older.length + 1] 0 := by
    refine hl.sent older.length (asked.id, .read32 asked.addr) ?_
    rw [hsent, List.getElem?_append_right (by simp)]
    simp
  rw [hl.rid, hid, hlength, iterate_nextRid, iterate_nextRid]
  omega

end Requests

/-! ## What holds at a comparison -/

theorem asks_of_comparison {pc : CatchPc} {c : RequireCmd × ReadResult} (h : c ∈ pc.comparison) :
    pc.asks = some c.1 := by
  cases pc with
  | readReceived r q table read =>
      obtain rfl := Option.mem_some_iff.mp h
      rfl
  | _ => cases h

/-- Every request carries the id of its number, the answer that is waited for belongs to the last `read32` request, and
an answer that is compared stands at the front of `pbuf`. -/
structure CatchInv (s : CatchState) : Prop where
  link : LinkOk s.link
  /-- The last `read32` request is the one for the entry in question. -/
  asked : ∀ q ∈ s.pc.asks, ∃ asked ∈ s.link.lastRead32, asked.addr = q.addr
  /-- What has been read stands at the front of `pbuf`, which has the pattern of an answer. -/
  received : ∀ c ∈ s.pc.comparison, AnswerPattern s.pbuf ∧ ∃ old, s.pbuf = c.2.chunk ++ old

namespace CatchInv

variable {s : CatchState}

/-- Where no register is asked for, the ids are all there is to say. -/
theorem of_link (hlink : LinkOk s.link) (hasks : s.pc.asks = none) : CatchInv s := by
  refine ⟨hlink, fun q hq => ?_, fun c hc => ?_⟩
  · rw [hasks] at hq
    cases hq
  · have hsome := asks_of_comparison hc
    rw [hasks] at hsome
    cases hsome

theorem query (h : CatchInv s) (addr : Nat) : CatchInv (catchStep s (.query addr)).1 := by
  refine ⟨h.link.sendCmdComplete _, fun q hq => ?_, h.received⟩
  obtain ⟨asked, hasked, haddr⟩ := h.asked q hq
  exact ⟨{ asked with since := asked.since + 1 }, lastRead32_query hasked addr, haddr⟩

/-- A round of the loop that receives a block. -/
theorem receive_block (h : CatchInv s) (read : ReadResult) {received : ReadResult → CatchPc}
    (hasks : s.pc.asks = none) (hreceived : ∀ read, (received read).asks = none) :
    CatchInv (s.receive read received).1 := by
  rw [CatchState.receive]
  split
  · split
    · exact of_link h.link hasks
    · exact of_link h.link (hreceived read)
  · exact of_link h.link hasks

/-- A round of the loop that receives a register. -/
theorem receive_register (h : CatchInv s) (read : ReadResult) {r : RegionCmd} {q : RequireCmd} {table : List Cmd}
    (hpc : s.pc = .readReceiving r q table) : CatchInv (s.receive read (.readReceived r q table)).1 := by
  have hasked := h.asked
  rw [hpc] at hasked
  have hstay : ∀ pbuf, CatchInv { s with pbuf := pbuf } := by
    intro pbuf
    refine ⟨h.link, h.asked, fun c hc => ?_⟩
    have hnone : s.pc.comparison = none := by rw [hpc]; rfl
    rw [Option.mem_def, hnone] at hc
    cases hc
  rw [CatchState.receive]
  split
  · next hpattern =>
      split
      · exact hstay _
      · refine ⟨h.link, hasked, fun c hc => ?_⟩
        obtain rfl := Option.mem_some_iff.mp hc
        exact ⟨hpattern, _, overwrite_zero s.pbuf read.chunk⟩
  · exact hstay _

theorem dump (h : CatchInv s) (inp : CatchInput) : CatchInv (s.dump inp).1 := by
  rw [CatchState.dump]
  split
  · exact of_link h.link rfl
  · exact of_link h.link (by split <;> rfl)
  · exact of_link h.link rfl
  · split
    · exact of_link h.link rfl
    · split
      · exact of_link h.link rfl
      · next q _ =>
          refine ⟨h.link.sendCmdComplete _, fun q' hq' => ?_, fun c hc => by cases hc⟩
          obtain rfl := Option.mem_some_iff.mp hq'
          exact ⟨_, lastRead32_read32 s.link q.addr, rfl⟩
  · next hpc => exact h.receive_register _ hpc
  · exact of_link h.link (by dsimp only; split <;> rfl)
  · exact of_link h.link (by dsimp only; split <;> rfl)
  · split
    · exact of_link h.link (by dsimp only; split <;> rfl)
    · exact of_link h.link rfl
  · exact of_link (h.link.sendCmdComplete _) (by rw [CatchState.send]; dsimp only; split <;> rfl)
  · next hpc => exact h.receive_block _ (by rw [hpc]; rfl) fun _ => rfl
  · dsimp only
    split
    · exact of_link h.link rfl
    · exact of_link h.link (by dsimp only; split <;> rfl)
  · exact h

/-- Every step keeps the invariant. -/
theorem step (s : CatchState) (step : CatchStep) (h : CatchInv s) : CatchInv (catchStep s step).1 := by
  cases step with
  | query addr => exact h.query addr
  | exit => exact ⟨h.link, h.asked, h.received⟩
  | dump inp => exact h.dump inp

theorem start (before : List Request) (pbuf : List UInt8) (table : List Cmd) :
    CatchInv (catchStart before pbuf table) := by
  refine of_link (linkOk_linkAfter before) ?_
  rw [catchStart]
  dsimp only
  split <;> rfl

end CatchInv

/-- An answer that is not refused is long enough and echoes the current id. -/
theorem checkRead_eq_some_iff {rid rc v : Nat} {buff : List UInt8} :
    checkRead rid buff rc = some v ↔ 10 ≤ rc ∧ (buff.getD 4 0).toNat = rid ∧ answerValue buff = v := by
  rw [checkRead]
  split
  · next hshort => exact iff_of_false (fun h => by cases h) fun h => absurd h.1 (Nat.not_le.mpr hshort)
  · next hlong =>
      rw [not_lt] at hlong
      split
      · next hid => exact iff_of_false (fun h => by cases h) fun h => absurd h.2.1 hid
      · next hid =>
          rw [not_not] at hid
          rw [Option.some.injEq]
          exact ⟨fun hv => ⟨hlong, hid, hv⟩, fun h => h.2.2⟩

theorem answerValue_append {chunk old : List UInt8} (h : 10 ≤ chunk.length) :
    answerValue (chunk ++ old) = answerValue chunk := by
  rw [answerValue, answerValue, List.getD_append _ _ _ _ (by omega), List.getD_append _ _ _ _ (by omega),
    List.getD_append _ _ _ _ (by omega), List.getD_append _ _ _ _ (by omega)]

theorem answerPattern_append {chunk old : List UInt8} (h : 10 ≤ chunk.length) :
    AnswerPattern (chunk ++ old) ↔ AnswerPattern chunk := by
  rw [AnswerPattern, AnswerPattern, List.getElem?_append_left (by omega), List.getElem?_append_left (by omega)]

/-- A read that has failed has brought nothing. -/
theorem readResult_rc {read : ReadResult} (h : 10 ≤ read.chunk.length) : read.rc = read.chunk.length := by
  cases read with
  | bytes chunk le => rfl
  | failed => exact absurd h (by decide)

/-- Where the invariant holds, a comparison is with the own answer exactly if this has come in time. -/
theorem CatchInv.comparesOwnAnswer_iff (s : CatchState) (step : CatchStep) (h : CatchInv s) :
    ComparesOwnAnswer s step ↔ AnsweredInTime s step := by
  cases step with
  | query addr => exact Iff.rfl
  | exit => exact Iff.rfl
  | dump inp =>
      refine forall₂_congr fun c hc => exists_congr fun asked => and_congr_right fun hasked => ?_
      obtain ⟨hpattern, old, hpbuf⟩ := h.received c hc
      have haddr : asked.addr = c.1.addr := by
        obtain ⟨asked', hasked', haddr⟩ := h.asked c.1 (asks_of_comparison hc)
        rw [Option.mem_def.mp hasked, Option.mem_some_iff] at hasked'
        rw [hasked', haddr]
      rw [← rid_eq_iff h.link hasked, EchoesId, checkRead_eq_some_iff, hpbuf]
      rw [hpbuf] at hpattern
      constructor
      · rintro ⟨-, ⟨hlong, -, hid⟩, -, hrid, -⟩
        rw [List.getD_append _ _ _ _ (by omega)] at hrid
        exact ⟨hlong, hid, hrid.symm.trans hid⟩
      · rintro ⟨hlong, hid, hrid⟩
        refine ⟨haddr, ⟨hlong, (answerPattern_append hlong).mp hpattern, hid⟩, ?_, ?_, answerValue_append hlong⟩
        · rwa [readResult_rc hlong]
        · rw [List.getD_append _ _ _ _ (by omega), hid, hrid]

/-- **When a conditional region uses the answer to its own question**: in every interleaving with status queries and for
any reads, exactly if what ends the wait for a register is long enough and echoes the id of the `read32` request, and is
checked with no status query sent since that request, or so many that the ids have gone round. -/
theorem catchBlueScreen_comparesOwnAnswer_iff (before : List Request) (pbuf : List UInt8) (table : List Cmd)
    (steps : List CatchStep) :
    Along catchStep ComparesOwnAnswer (catchStart before pbuf table) steps ↔
      Along catchStep AnsweredInTime (catchStart before pbuf table) steps :=
  along_congr catchStep CatchInv.step CatchInv.comparesOwnAnswer_iff _ steps (CatchInv.start before pbuf table)

/-- A region that is there if the lowest bit of a register is not set. -/
def conditionalRegion : List Cmd := [.region ⟨"psram".toList, 0x80000000, 4, 0⟩, .require ⟨0x51600000, 1, 0⟩]

/-- A step of the dump thread that brings some bytes. -/
def dumpReads (bytes : List UInt8) (h : bytes.length ≤ Ec800g.qlogBufSize) : CatchStep :=
  .dump ⟨true, .bytes bytes h, true, true⟩

/-- The register is 1. A status query is sent before the answer is checked, so that it is refused, and 0 is compared. -/
theorem not_catchBlueScreen_comparesOwnAnswer :
    ¬ ∀ (before : List Request) (pbuf : List UInt8) (table : List Cmd) (steps : List CatchStep),
      Along catchStep ComparesOwnAnswer (catchStart before pbuf table) steps := by
  intro h
  exact absurd (h [.query 0] [0xad, 0x00, 0x03, 0xff, 0x01, 0x01] conditionalRegion
    [dumpReads [] (by decide), dumpReads [] (by decide),
      dumpReads (answerBytes 2 [0, 0, 0, 1] 0) (by decide), .query 0, dumpReads [] (by decide)]) (by decide)

end QLog.BlueScreen
