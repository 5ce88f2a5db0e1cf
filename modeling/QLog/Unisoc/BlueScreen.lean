import QLog.Library.ByteBuffer
import QLog.Library.History
import QLog.Library.LittleEndian

/-! # The blue-screen dump of the EXX00U

The dump thread asks for a region block by block, while another thread sends a status query now and then. Every
request carries the next of 255 request ids, and an answer is taken for the one to the last request if it echoes
the current id.

So an answer that comes late is refused, unless the ids have gone round in the meantime: 255 ids after its request.
Reading an answer and comparing its id are two steps, between which the other thread can send queries. -/

namespace QLog.BlueScreen

open Library

/-! ## Requests -/

/-- What is sent. -/
inductive Request
  /-- A blue screen dump status query. -/
  | query (addr : Nat)
  | readBlock (addr size : Nat)
  | read32 (addr : Nat)
deriving DecidableEq

/-- `PacketCrc`, over all but the first three bytes and the last one. -/
def packetCrc (packet : List UInt8) : UInt8 := (packet.dropLast.drop 3).foldl (· ^^^ ·) 0

/-- A command whose last byte is the check sum. -/
def withCrc (front : List UInt8) : List UInt8 := front ++ [packetCrc (front ++ [0])]

/-- The bytes of a request. -/
def requestBytes (rid : Nat) : Request → List UInt8
  | .query addr => withCrc ([0xad, 0x00, 0x07, 0xff, 0x00] ++ leBytes 4 addr ++ [UInt8.ofNat rid])
  | .readBlock addr size =>
      withCrc ([0xad, 0x00, 0x09, 0xfe, 0x0b] ++ leBytes 4 addr ++ [UInt8.ofNat rid] ++ leBytes 2 size)
  | .read32 addr => withCrc ([0xad, 0x00, 0x07, 0xfe, 0x02] ++ leBytes 4 addr ++ [UInt8.ofNat rid])

/-- The request id after `rid`. -/
def nextRid (rid : Nat) : Nat := if rid = 255 then 1 else rid + 1

/-- The variable `rid`, and all requests sent so far with their ids. -/
structure Link where
  rid : Nat
  sent : List (Nat × Request)

/-- `unisoc_exx00u_send_cmd_complete`, as one step. -/
def sendCmdComplete (l : Link) (req : Request) : Link where
  rid := nextRid l.rid
  sent := l.sent ++ [(nextRid l.rid, req)]

/-- The link after the requests of the time before. -/
def linkAfter (before : List Request) : Link := before.foldl sendCmdComplete ⟨0, []⟩

/-! ## Messages -/

/-- What one receive brings. -/
inductive Message
  | nothing
  | apLog (bytes : List UInt8)
  /-- The answer to the request with the number `k`. -/
  | answer (k : Nat) (data : List UInt8) (crc : UInt8)

/-- An answer: the length of what follows but for the check sum, and the id of its request. -/
def answerBytes (rid : Nat) (data : List UInt8) (crc : UInt8) : List UInt8 :=
  [0xad, UInt8.ofNat ((data.length + 2) / 256), UInt8.ofNat (data.length + 2), 0xfe, UInt8.ofNat rid] ++ data ++ [crc]

/-- The bytes of a message; an answer echoes the id of its request. -/
def messageBytes (sent : List (Nat × Request)) : Message → List UInt8
  | .nothing => []
  | .apLog bytes => bytes
  | .answer k data crc =>
      match sent[k]? with
      | none => []
      | some (rid, _) => answerBytes rid data crc

/-- `pbuf[0] == 0xad && pbuf[3] == 0xfe` -/
def AnswerPattern (pbuf : List UInt8) : Prop := pbuf[0]? = some 0xad ∧ pbuf[3]? = some 0xfe

instance (pbuf : List UInt8) : Decidable (AnswerPattern pbuf) := inferInstanceAs (Decidable (_ ∧ _))

/-- `checkReadBlock`; what is returned is a `size_t`, also where less than the id and the check sum is announced. -/
def checkReadBlock (rid : Nat) (buff : List UInt8) (rc : Nat) : Nat :=
  let dataSize := (buff.getD 1 0).toNat * 256 + (buff.getD 2 0).toNat
  if rc < 8 then 0
  else if rc < dataSize + 4 then 0
  else if (buff.getD 4 0).toNat ≠ rid then 0
  else (dataSize + 2 ^ 64 - 2) % 2 ^ 64

/-! ## The loop over a region -/

/-- Where the dump thread is. -/
inductive Phase
  /-- Before the loop condition. -/
  | head
  /-- In `unisoc_exx00u_recv_cmd_deal`. -/
  | receiving
  /-- Before the check of `rc` bytes, with the number of the request they answer. -/
  | received (rc : Nat) (answers : Option Nat)
  /-- The loop has ended. -/
  | ended
  /-- A request could not be sent. -/
  | failed
deriving DecidableEq

/-- The request that the received bytes answer. -/
def Phase.answers : Phase → Option Nat
  | .received _ answers => answers
  | _ => none

/-- The state of the loop. -/
structure RegionDump where
  link : Link
  pbuf : List UInt8
  baseTmp : Nat
  saveSize : Nat
  phase : Phase

inductive BlueScreenEvent
  | sent (bytes : List UInt8)
  /-- `tmp_unisco_ops->logfile_save` -/
  | apLog (bytes : List UInt8)
  /-- `qlog_logfile_save` to the dump file. -/
  | save (data : List UInt8)

/-- A step of one of the threads. -/
inductive ThreadStep
  /-- The status-query thread sends a query. -/
  | query (addr : Nat)
  /-- The dump thread sends its next request, successfully or not, or checks what it has received. -/
  | dump (sent : Bool)
  /-- `unisoc_exx00u_recv_cmd` returns. -/
  | receive (msg : Message)

/-- The request a message answers. -/
def Message.request : Message → Option Nat
  | .answer k _ _ => some k
  | _ => none

/-- The size of the next block. -/
def blockSize (size : Nat) (s : RegionDump) : Nat :=
  if 0x0800 < size - s.saveSize then 0x0800 else size - s.saveSize

/-- A step of the dump thread that is not a receive. -/
def dumpStep (size : Nat) (s : RegionDump) (sent : Bool) : RegionDump × List BlueScreenEvent :=
  match s.phase with
  | .head =>
      if s.saveSize < size then
        let req := Request.readBlock s.baseTmp (blockSize size s)
        ({ s with link := sendCmdComplete s.link req, phase := if sent then .receiving else .failed },
          [.sent (requestBytes (nextRid s.link.rid) req)])
      else ({ s with phase := .ended }, [])
  | .received rc _ =>
      let n := checkReadBlock s.link.rid s.pbuf rc
      -- a refused answer leads to the same request again
      if n = 0 then ({ s with phase := .head }, [])
      else
        ({ s with
            saveSize := (s.saveSize + n) % 2 ^ 32
            baseTmp := (s.baseTmp + n) % 2 ^ 32
            phase := .head },
          [.save (window s.pbuf 5 (5 + n))])
  | _ => (s, [])

/-- The receive of a message. -/
def receiveStep (s : RegionDump) (msg : Message) : RegionDump × List BlueScreenEvent :=
  match s.phase with
  | .receiving =>
      let bytes := messageBytes s.link.sent msg
      let pbuf := overwrite s.pbuf 0 bytes
      -- the pattern is looked for in `pbuf`, where older bytes may stand behind short ones
      if AnswerPattern pbuf then
        if bytes.length < 1 then ({ s with pbuf := pbuf }, [])
        else ({ s with pbuf := pbuf, phase := .received bytes.length msg.request }, [])
      else ({ s with pbuf := pbuf }, [.apLog bytes])
  | _ => (s, [])

def blueScreenStep (size : Nat) (s : RegionDump) : ThreadStep → RegionDump × List BlueScreenEvent
  | .query addr =>
      ({ s with link := sendCmdComplete s.link (.query addr) },
        [.sent (requestBytes (nextRid s.link.rid) (.query addr))])
  | .dump sent => dumpStep size s sent
  | .receive msg => receiveStep s msg

/-- The state before the loop over the region at `base`. -/
def blueScreenStart (before : List Request) (pbuf : List UInt8) (base : Nat) : RegionDump where
  link := linkAfter before
  pbuf := pbuf
  baseTmp := base
  saveSize := 0
  phase := .head

/-- The bytes of the dump file. -/
def savedBytes (events : List BlueScreenEvent) : List UInt8 :=
  events.flatMap fun
    | .save data => data
    | _ => []

/-! ## The device -/

/-- The memory with the addresses of the device. -/
def memory32 (mem : Nat → UInt8) (x : Nat) : UInt8 := mem (x % 2 ^ 32)

/-- The data answers the request; status queries are not answered in this form. -/
def Answers (mem : Nat → UInt8) : Request → List UInt8 → Prop
  | .readBlock addr size, data => data.length ≤ size ∧ data = memoryRange (memory32 mem) addr data.length
  | .read32 _, _ => True
  | .query _, _ => False

instance (mem : Nat → UInt8) : ∀ (req : Request) (data : List UInt8), Decidable (Answers mem req data)
  | .readBlock _ _, _ => inferInstanceAs (Decidable (_ ∧ _))
  | .read32 _, _ => isTrue trivial
  | .query _, _ => isFalse id

/-- A message the device can send: noise, or an answer to one of the requests so far. -/
def MessageOk (mem : Nat → UInt8) (sent : List (Nat × Request)) : Message → Prop
  | .nothing => True
  | .apLog bytes => ¬ AnswerPattern bytes
  | .answer k data _ => ∃ entry ∈ sent[k]?, Answers mem entry.2 data

instance (mem : Nat → UInt8) (sent : List (Nat × Request)) : ∀ msg, Decidable (MessageOk mem sent msg)
  | .nothing => isTrue trivial
  | .apLog _ => inferInstanceAs (Decidable (¬ _))
  | .answer _ _ _ => inferInstanceAs (Decidable (∃ _ ∈ _, _))

/-- The device behaves. -/
def DeviceStep (mem : Nat → UInt8) (s : RegionDump) : ThreadStep → Prop
  | .receive msg => MessageOk mem s.link.sent msg
  | _ => True

instance (mem : Nat → UInt8) (s : RegionDump) : ∀ step, Decidable (DeviceStep mem s step)
  | .query _ => isTrue trivial
  | .dump _ => isTrue trivial
  | .receive msg => inferInstanceAs (Decidable (MessageOk mem s.link.sent msg))

/-- An answer is received fewer than 254 request ids after its request. -/
def ReceivedInTime (s : RegionDump) : ThreadStep → Prop
  | .receive msg => ∀ k ∈ msg.request, s.link.sent.length - 1 - k < 254
  | _ => True

/-- An answer is compared with `rid` fewer than 255 request ids after its request. -/
def CheckedInTime (s : RegionDump) : ThreadStep → Prop
  | .dump _ => ∀ k ∈ s.phase.answers, s.link.sent.length - 1 - k < 255
  | _ => True

instance (s : RegionDump) : ∀ step, Decidable (ReceivedInTime s step)
  | .query _ => isTrue trivial
  | .dump _ => isTrue trivial
  | .receive _ => inferInstanceAs (Decidable (∀ _ ∈ _, _))

instance (s : RegionDump) : ∀ step, Decidable (CheckedInTime s step)
  | .query _ => isTrue trivial
  | .dump _ => inferInstanceAs (Decidable (∀ _ ∈ _, _))
  | .receive _ => isTrue trivial

/-! ## Request ids -/

/-- The ids go round with a period of 255. -/
theorem iterate_nextRid (n : Nat) : nextRid^[n + 1] 0 = n % 255 + 1 := by
  induction n with
  | zero => rfl
  | succ n ih =>
      rw [Function.iterate_succ_apply', ih, nextRid]
      split <;> omega

/-- Less than 255 requests apart, the ids are different. -/
theorem iterate_nextRid_inj {m n : Nat} (hle : m ≤ n) (hlt : n < m + 255)
    (h : nextRid^[m + 1] 0 = nextRid^[n + 1] 0) : m = n := by
  rw [iterate_nextRid, iterate_nextRid] at h
  omega

/-- Every request carries the id of its number. -/
structure LinkOk (l : Link) : Prop where
  rid : l.rid = nextRid^[l.sent.length] 0
  sent : ∀ k entry, l.sent[k]? = some entry → entry.1 = nextRid^[k + 1] 0

theorem LinkOk.sendCmdComplete {l : Link} (h : LinkOk l) (req : Request) : LinkOk (sendCmdComplete l req) := by
  have hrid : nextRid l.rid = nextRid^[l.sent.length + 1] 0 := by
    rw [Function.iterate_succ_apply', ← h.rid]
  refine ⟨?_, fun k entry hk => ?_⟩
  · show nextRid l.rid = nextRid^[(l.sent ++ [(nextRid l.rid, req)]).length] 0
    rw [List.length_append, List.length_singleton, hrid]
  · have hk' : (l.sent ++ [(nextRid l.rid, req)])[k]? = some entry := hk
    rw [List.getElem?_append] at hk'
    split at hk'
    · exact h.sent k entry hk'
    · next hge =>
        rw [List.getElem?_singleton] at hk'
        split at hk'
        · next hlast =>
            obtain rfl : k = l.sent.length := by omega
            rw [← Option.some.inj hk', hrid]
        · cases hk'

theorem linkOk_linkAfter (before : List Request) : LinkOk (linkAfter before) := by
  have hfold : ∀ l, LinkOk l → LinkOk (before.foldl sendCmdComplete l) := by
    induction before with
    | nil => exact fun l h => h
    | cons req before ih => exact fun l h => ih _ (h.sendCmdComplete req)
  exact hfold ⟨0, []⟩ ⟨rfl, fun k entry hk => by cases hk⟩

/-! ## The check of an answer -/

section Check

variable {r rid : Nat} {data rest : List UInt8} {crc : UInt8}

theorem length_answerBytes : (answerBytes r data crc).length = data.length + 6 := by
  simp only [answerBytes, List.length_append, List.length_cons, List.length_nil]
  omega

theorem window_answerBytes : window (answerBytes r data crc ++ rest) 5 (5 + data.length) = data := by
  have h := window_mid [0xad, UInt8.ofNat ((data.length + 2) / 256), UInt8.ofNat (data.length + 2), 0xfe,
    UInt8.ofNat r] data ([crc] ++ rest)
  rw [answerBytes, List.append_assoc]
  exact h

/-- An answer that is not refused echoes the current id, and what is saved is all its data. -/
theorem checkReadBlock_answerBytes (hr : r < 256)
    (hcheck : checkReadBlock rid (answerBytes r data crc ++ rest) (data.length + 6) ≠ 0) :
    r = rid ∧ (data.length + 2 < 2 ^ 16 →
      checkReadBlock rid (answerBytes r data crc ++ rest) (data.length + 6) = data.length) := by
  have hhigh : ((answerBytes r data crc ++ rest).getD 1 0).toNat = (data.length + 2) / 256 % 256 := by
    simp [answerBytes]
  have hlow : ((answerBytes r data crc ++ rest).getD 2 0).toNat = (data.length + 2) % 256 := by
    simp [answerBytes]
  have hid : ((answerBytes r data crc ++ rest).getD 4 0).toNat = r := by
    have hmod := Nat.mod_eq_of_lt hr
    simpa [answerBytes] using hmod
  rw [checkReadBlock] at hcheck ⊢
  rw [hhigh, hlow, hid] at hcheck ⊢
  split at hcheck
  · exact absurd rfl hcheck
  · next hlong =>
      split at hcheck
      · exact absurd rfl hcheck
      · next hwhole =>
          split at hcheck
          · exact absurd rfl hcheck
          · next hsame =>
              rw [ne_eq, not_not] at hsame
              refine ⟨hsame, fun hlen => ?_⟩
              rw [if_neg hlong, if_neg hwhole, if_neg (by simpa using hsame)]
              omega

theorem checkReadBlock_short {buff : List UInt8} {rc : Nat} (h : rc < 8) : checkReadBlock rid buff rc = 0 := by
  rw [checkReadBlock]
  exact if_pos h

end Check

/-! ## The invariant of the loop -/

/-- What has been received: too little, or an answer to one of the requests. -/
def Received (mem : Nat → UInt8) (s : RegionDump) (rc : Nat) : Option Nat → Prop
  | none => rc < 8
  | some k => ∃ entry data crc rest, s.link.sent[k]? = some entry ∧ Answers mem entry.2 data ∧
      s.pbuf = answerBytes entry.1 data crc ++ rest ∧ rc = data.length + 6

/-- The dump thread waits for an answer or has one. -/
def Phase.Waiting : Phase → Prop
  | .receiving => True
  | .received _ _ => True
  | _ => False

/-- The loop over the region at `base`: the file is the memory from there on, as long as `saveSize` says and no longer
than the region, and the next request goes on where it ends. -/
structure RegionInv (mem : Nat → UInt8) (base size : Nat) (s : RegionDump) (file : List UInt8) : Prop where
  link : LinkOk s.link
  file : file = memoryRange (memory32 mem) base s.saveSize
  baseTmp : s.baseTmp = (base + s.saveSize) % 2 ^ 32
  le : s.saveSize ≤ size
  /-- The last request is a query or the one for the next block. -/
  current : s.phase.Waiting → ∃ entry, s.link.sent.getLast? = some entry ∧
    ((∃ addr, entry.2 = .query addr) ∨ entry.2 = .readBlock s.baseTmp (blockSize size s))
  received : ∀ rc answers, s.phase = .received rc answers → Received mem s rc answers
  ended : s.phase = .ended → size ≤ s.saveSize

theorem memory32_mod (mem : Nat → UInt8) (a n : Nat) :
    memoryRange (memory32 mem) (a % 2 ^ 32) n = memoryRange (memory32 mem) a n := by
  rw [memoryRange, memoryRange, List.range'_eq_map_range, List.range'_eq_map_range, List.map_map, List.map_map]
  refine List.map_congr_left fun i _ => ?_
  show mem ((a % 2 ^ 32 + i) % 2 ^ 32) = mem ((a + i) % 2 ^ 32)
  rw [Nat.mod_add_mod]

theorem savedBytes_append (a b : List BlueScreenEvent) : savedBytes (a ++ b) = savedBytes a ++ savedBytes b :=
  List.flatMap_append

section Steps

variable {mem : Nat → UInt8} {base size : Nat} {s : RegionDump} {events : List BlueScreenEvent}

theorem RegionInv.query (h : RegionInv mem base size s (savedBytes events)) (addr : Nat) :
    RegionInv mem base size (blueScreenStep size s (.query addr)).1
      (savedBytes (events ++ (blueScreenStep size s (.query addr)).2)) := by
  have hfile : savedBytes (events ++ (blueScreenStep size s (.query addr)).2) = savedBytes events := by
    rw [savedBytes_append]
    exact List.append_nil _
  rw [hfile]
  -- a query is the last request now, and the earlier ones keep their places
  refine ⟨h.link.sendCmdComplete _, h.file, h.baseTmp, h.le, fun _ => ?_, fun rc answers hphase => ?_, h.ended⟩
  · exact ⟨_, List.getLast?_concat, Or.inl ⟨addr, rfl⟩⟩
  · have hrec := h.received rc answers hphase
    cases answers with
    | none => exact hrec
    | some k =>
        obtain ⟨entry, data, crc, rest, hk, hrec⟩ := hrec
        refine ⟨entry, data, crc, rest, ?_, hrec⟩
        exact (List.getElem?_append_left (List.getElem?_eq_some_iff.mp hk).1).trans hk

/-- Noise is at most taken for an answer where it is too short for one. -/
theorem length_lt_of_apLog {bytes pbuf : List UInt8} (hnoise : ¬ AnswerPattern bytes)
    (hpattern : AnswerPattern (overwrite pbuf 0 bytes)) : bytes.length < 8 := by
  by_contra hlong
  refine hnoise ⟨?_, ?_⟩
  · rw [← hpattern.1, overwrite_zero, List.getElem?_append_left (by omega)]
  · rw [← hpattern.2, overwrite_zero, List.getElem?_append_left (by omega)]

/-- A receive keeps the invariant. -/
theorem RegionInv.receive (h : RegionInv mem base size s (savedBytes events)) {msg : Message}
    (hmsg : MessageOk mem s.link.sent msg) :
    RegionInv mem base size (blueScreenStep size s (.receive msg)).1
      (savedBytes (events ++ (blueScreenStep size s (.receive msg)).2)) := by
  have hidle : RegionInv mem base size s (savedBytes (events ++ [])) := by
    rwa [List.append_nil]
  rw [blueScreenStep, receiveStep]
  cases hphase : s.phase with
  | receiving =>
      dsimp only
      have hcurrent := h.current (by rw [hphase]; trivial)
      have hpbuf : ∀ pbuf more, savedBytes more = [] →
          RegionInv mem base size { s with pbuf := pbuf, phase := .receiving } (savedBytes (events ++ more)) := by
        intro pbuf more hmore
        rw [savedBytes_append, hmore, List.append_nil]
        exact ⟨h.link, h.file, h.baseTmp, h.le, fun _ => hcurrent, by simp, by simp⟩
      split
      · next hpattern =>
          split
          · exact hpbuf _ [] rfl
          · next hlong =>
              rw [List.append_nil]
              refine ⟨h.link, h.file, h.baseTmp, h.le, fun _ => hcurrent, fun rc answers hrec => ?_, fun hend => ?_⟩
              · cases hrec
                cases msg with
                | nothing => exact absurd Nat.one_pos hlong
                | apLog bytes => exact length_lt_of_apLog hmsg hpattern
                | answer k data crc =>
                    obtain ⟨entry, hk, hanswers⟩ := hmsg
                    have hbytes : messageBytes s.link.sent (.answer k data crc) = answerBytes entry.1 data crc := by
                      rw [messageBytes, Option.mem_def.mp hk]
                    refine ⟨entry, data, crc, s.pbuf.drop (data.length + 6), hk, hanswers, ?_, ?_⟩
                    · rw [hbytes, overwrite_zero, length_answerBytes]
                    · rw [hbytes, length_answerBytes]
              · cases hend
      · exact hpbuf _ [.apLog _] rfl
  | head => exact hidle
  | received rc answers => exact hidle
  | ended => exact hidle
  | failed => exact hidle

theorem blockSize_le (size : Nat) (s : RegionDump) :
    blockSize size s ≤ 0x0800 ∧ blockSize size s ≤ size - s.saveSize := by
  rw [blockSize]
  split <;> omega

/-- An answer that is not refused is one to the last request, and continues the file. -/
theorem accepted_answer (h : RegionInv mem base size s (savedBytes events)) {rc : Nat} {answers : Option Nat}
    (hphase : s.phase = .received rc answers) (htime : CheckedInTime s (.dump true))
    (hn : checkReadBlock s.link.rid s.pbuf rc ≠ 0) :
    checkReadBlock s.link.rid s.pbuf rc ≤ size - s.saveSize ∧
      window s.pbuf 5 (5 + checkReadBlock s.link.rid s.pbuf rc) =
        memoryRange (memory32 mem) (base + s.saveSize) (checkReadBlock s.link.rid s.pbuf rc) := by
  have hrec := h.received rc answers hphase
  cases answers with
  | none => exact absurd (checkReadBlock_short hrec) hn
  | some k =>
      obtain ⟨entry, data, crc, rest, hk, hanswers, hpbuf, rfl⟩ := hrec
      have hklt := (List.getElem?_eq_some_iff.mp hk).1
      have hid := h.link.sent k entry hk
      have hid_lt : entry.1 < 256 := by
        rw [hid, iterate_nextRid]
        omega
      rw [hpbuf] at hn ⊢
      obtain ⟨hsame, hlength⟩ := checkReadBlock_answerBytes hid_lt hn
      -- the ids have not gone round since the request
      have hlast : k = s.link.sent.length - 1 := by
        have hage := htime k (by rw [hphase]; rfl)
        have hrid := h.link.rid
        obtain ⟨n, hlen⟩ := Nat.exists_eq_add_of_le' (Nat.lt_of_le_of_lt (Nat.zero_le k) hklt)
        rw [hlen] at hrid hage hklt
        rw [hsame, hrid] at hid
        have hk' := iterate_nextRid_inj (m := k) (n := n) (by omega) (by omega) hid.symm
        omega
      obtain ⟨last, hgetLast, hreq⟩ := h.current (by rw [hphase]; trivial)
      rw [List.getLast?_eq_getElem?, ← hlast, hk, Option.some.injEq] at hgetLast
      subst hgetLast
      obtain ⟨hsmall, hrest⟩ := blockSize_le size s
      -- the last request is the one for the block: a query has no data
      rcases hreq with ⟨addr, hquery⟩ | hblock
      · rw [hquery] at hanswers
        exact hanswers.elim
      · rw [hblock] at hanswers
        obtain ⟨hle, hdata⟩ := hanswers
        rw [hlength (by omega), window_answerBytes]
        refine ⟨by omega, ?_⟩
        rw [hdata, length_memoryRange, h.baseTmp, memory32_mod]

/-- The loop is at its head again. -/
theorem RegionInv.atHead {file : List UInt8} (h : RegionInv mem base size s file) :
    RegionInv mem base size { s with phase := .head } file :=
  ⟨h.link, h.file, h.baseTmp, h.le, fun hwait => hwait.elim, by simp, by simp⟩

/-- The answer to the request for the next block has come, and the block is saved. -/
theorem RegionInv.save (h : RegionInv mem base size s (savedBytes events)) (hsize : size < 2 ^ 32) {n : Nat}
    {block : List UInt8} (hle : n ≤ size - s.saveSize)
    (hblock : block = memoryRange (memory32 mem) (base + s.saveSize) n) :
    RegionInv mem base size
      { s with saveSize := (s.saveSize + n) % 2 ^ 32, baseTmp := (s.baseTmp + n) % 2 ^ 32, phase := .head }
      (savedBytes (events ++ [.save block])) := by
  have hbound := h.le
  have hsum : (s.saveSize + n) % 2 ^ 32 = s.saveSize + n := Nat.mod_eq_of_lt (by omega)
  refine ⟨h.link, ?_, ?_, ?_, fun hwait => hwait.elim, by simp, by simp⟩
  · rw [savedBytes_append, h.file, hblock, hsum, ← memoryRange_append]
    exact congrArg _ (List.append_nil _)
  · show (s.baseTmp + n) % 2 ^ 32 = (base + (s.saveSize + n) % 2 ^ 32) % 2 ^ 32
    rw [h.baseTmp, hsum]
    omega
  · show (s.saveSize + n) % 2 ^ 32 ≤ size
    omega

theorem RegionInv.dump (h : RegionInv mem base size s (savedBytes events)) {sent : Bool} (hsize : size < 2 ^ 32)
    (htime : CheckedInTime s (.dump sent)) :
    RegionInv mem base size (blueScreenStep size s (.dump sent)).1
      (savedBytes (events ++ (blueScreenStep size s (.dump sent)).2)) := by
  have hidle : RegionInv mem base size s (savedBytes (events ++ [])) := by
    rwa [List.append_nil]
  rw [blueScreenStep, dumpStep]
  cases hphase : s.phase with
  | head =>
      dsimp only
      split
      · next hmore =>
          have hfile : savedBytes (events ++ [.sent (requestBytes (nextRid s.link.rid)
              (.readBlock s.baseTmp (blockSize size s)))]) = savedBytes events := by
            rw [savedBytes_append]
            exact List.append_nil _
          dsimp only
          rw [hfile]
          refine ⟨h.link.sendCmdComplete _, h.file, h.baseTmp, h.le, fun _ => ?_, fun rc answers hrec => ?_,
            fun hend => ?_⟩
          · exact ⟨_, List.getLast?_concat, Or.inr rfl⟩
          · cases sent <;> cases hrec
          · cases sent <;> cases hend
      · next hover =>
          rw [List.append_nil]
          exact ⟨h.link, h.file, h.baseTmp, h.le, fun hwait => hwait.elim, by simp,
            fun _ => Nat.not_lt.mp hover⟩
  | received rc answers =>
      dsimp only
      split
      · -- refused, and asked for again
        rw [List.append_nil]
        exact h.atHead
      · next hn =>
          obtain ⟨hle, hwindow⟩ := accepted_answer h hphase htime hn
          exact h.save hsize hle hwindow
  | receiving => exact hidle
  | ended => exact hidle
  | failed => exact hidle

/-- A step of whichever thread keeps the invariant. -/
theorem RegionInv.step (hsize : size < 2 ^ 32) (s : RegionDump) (events : List BlueScreenEvent) (step : ThreadStep)
    (h : RegionInv mem base size s (savedBytes events)) (hcond : DeviceStep mem s step ∧ CheckedInTime s step) :
    RegionInv mem base size (blueScreenStep size s step).1 (savedBytes (events ++ (blueScreenStep size s step).2)) := by
  cases step with
  | query addr => exact h.query addr
  | dump sent => exact h.dump hsize hcond.2
  | receive msg => exact h.receive hcond.1

end Steps

/-- The loop over a region, from any link whose ids are right: where it has ended, the file holds the region. -/
theorem savedBytes_of_ended {mem : Nat → UInt8} {base size : Nat} (hbase : base < 2 ^ 32) (hsize : size < 2 ^ 32)
    {link : Link} (hlink : LinkOk link) {pbuf : List UInt8} {steps : List ThreadStep}
    (hdevice : Along (blueScreenStep size) (DeviceStep mem) ⟨link, pbuf, base, 0, .head⟩ steps)
    (htime : Along (blueScreenStep size) CheckedInTime ⟨link, pbuf, base, 0, .head⟩ steps)
    (hended : (runSteps (blueScreenStep size) ⟨link, pbuf, base, 0, .head⟩ steps).1.phase = .ended) :
    savedBytes (runSteps (blueScreenStep size) ⟨link, pbuf, base, 0, .head⟩ steps).2 =
      memoryRange (memory32 mem) base size := by
  have hstart : RegionInv mem base size ⟨link, pbuf, base, 0, .head⟩ (savedBytes []) := by
    refine ⟨hlink, rfl, ?_, Nat.zero_le size, fun hwait => hwait.elim, fun rc answers hrec => ?_, fun hend => ?_⟩
    · exact (Nat.mod_eq_of_lt hbase).symm
    · cases hrec
    · cases hend
  have hrun := runSteps_history_along (RegionInv.step hsize) steps hstart (along_and _ _ steps hdevice htime)
  rw [List.nil_append] at hrun
  have hall : (runSteps (blueScreenStep size) ⟨link, pbuf, base, 0, .head⟩ steps).1.saveSize = size :=
    Nat.le_antisymm hrun.le (hrun.ended hended)
  exact hrun.file.trans (congrArg _ hall)

/-- The run of the two threads over a region, from any requests and any buffer before. -/
def blueScreenRun (before : List Request) (pbuf : List UInt8) (base size : Nat) (steps : List ThreadStep) :
    RegionDump × List BlueScreenEvent :=
  runSteps (blueScreenStep size) (blueScreenStart before pbuf base) steps

/-- **The blue-screen dump is exact**: in every interleaving with the status queries, with answers lost, late, doubled
and out of order between any noise, if the loop over the region ends, the file holds the region. An answer must be
compared with the current id before the ids have gone round. -/
theorem blueScreen_exact {mem : Nat → UInt8} {base size : Nat} (hbase : base < 2 ^ 32) (hsize : size < 2 ^ 32)
    {before : List Request} {pbuf : List UInt8} {steps : List ThreadStep}
    (hdevice : Along (blueScreenStep size) (DeviceStep mem) (blueScreenStart before pbuf base) steps)
    (htime : Along (blueScreenStep size) CheckedInTime (blueScreenStart before pbuf base) steps)
    (hended : (blueScreenRun before pbuf base size steps).1.phase = .ended) :
    savedBytes (blueScreenRun before pbuf base size steps).2 = memoryRange (memory32 mem) base size :=
  savedBytes_of_ended hbase hsize (linkOk_linkAfter before) hdevice htime hended

/-! ## A late answer -/

/-- A region of four bytes is asked for, and half of it comes. -/
def firstHalf : List ThreadStep := [.dump true, .receive (.answer 0 [0, 1] 0), .dump true, .dump true]

/-- The second half comes after a second copy of the first. -/
theorem blueScreen_exact_doubled :
    savedBytes (blueScreenRun [] [] 0 4 (firstHalf ++ [.receive (.answer 0 [0, 1] 0), .dump true, .query 0,
      .dump true, .receive (.answer 3 [2, 3] 0), .dump true, .dump true])).2 =
        memoryRange (memory32 UInt8.ofNat) 0 4 :=
  blueScreen_exact (by decide) (by decide) (by decide) (by decide) (by decide)

/-- The second copy is read 253 ids after its request, and compared after two more queries. -/
theorem not_blueScreen_exact :
    ¬ ∀ (mem : Nat → UInt8) (base size : Nat) (before : List Request) (pbuf : List UInt8) (steps : List ThreadStep),
      base < 2 ^ 32 → size < 2 ^ 32 →
      Along (blueScreenStep size) (DeviceStep mem) (blueScreenStart before pbuf base) steps →
      Along (blueScreenStep size) ReceivedInTime (blueScreenStart before pbuf base) steps →
      (blueScreenRun before pbuf base size steps).1.phase = .ended →
        savedBytes (blueScreenRun before pbuf base size steps).2 = memoryRange (memory32 mem) base size := by
  intro h
  have hsaved := h UInt8.ofNat 0 4 [] [] (firstHalf ++ List.replicate 252 (.query 0) ++
    [.receive (.answer 0 [0, 1] 0), .query 0, .query 0, .dump true, .dump true]) (by decide) (by decide)
    (by decide +kernel) (by decide +kernel) (by decide +kernel)
  exact absurd hsaved (by decide +kernel)

end QLog.BlueScreen
