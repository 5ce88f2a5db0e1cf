import QLog.Diag.Packet
import QLog.Library.ByteBuffer
import QLog.Library.LittleEndian
import QLog.Unisoc.RegionFile

/-! # Requests to the EC800G

`unisoc_ec800g_send_cmd_complete` puts the request id and the fields into a template of 26 bytes and copies it to the
buffer that is sent, with an escape for every 7E and 7D between the first byte and the last one. How much has been
copied and how much is to be sent are counted apart. -/

namespace QLog.Ec800g

open Library

/-- The `type` of a request. -/
inductive RequestType
  /-- blue screen dump status query -/
  | query
  | readBlock
  | read32
deriving DecidableEq

/-- The first 26 bytes of `buf_send_query_tmp` and its siblings, and of the buffers that are sent. -/
def RequestType.template : RequestType → List UInt8
  | .query =>
      [0x7e, 0x02, 0x00, 0x00, 0xab, 0x18, 0x00, 0x0b, 0x00, 0x03, 0xa0, 0x10, 0x00,
        0x00, 0x00, 0x00, 0x00, 0x81, 0x95, 0xa2, 0x80, 0x01, 0x00, 0x00, 0x00, 0x7e]
  | .readBlock =>
      [0x7e, 0x02, 0x00, 0x00, 0xab, 0x18, 0x00, 0x0b, 0x00, 0x03, 0xa0, 0x10, 0x00,
        0x00, 0x00, 0x00, 0x00, 0x81, 0x95, 0xa2, 0x80, 0x00, 0x04, 0x00, 0x00, 0x7e]
  | .read32 =>
      [0x7e, 0x02, 0x00, 0x00, 0xab, 0x18, 0x00, 0x0b, 0x00, 0x03, 0xa0, 0x10, 0x00,
        0x20, 0x00, 0x00, 0x00, 0x00, 0x80, 0x00, 0x80, 0x01, 0x00, 0x00, 0x00, 0x7e]

/-- A template with its fields, which only `readBlock` has a size among. -/
def RequestType.request (type : RequestType) (rid addr size : UInt32) (template : List UInt8) : List UInt8 :=
  let tmp := overwrite (overwrite template 1 (leBytes 4 rid.toNat)) 17 (leBytes 4 addr.toNat)
  match type with
  | .query => tmp
  | .readBlock => overwrite tmp 21 (leBytes 4 size.toNat)
  | .read32 => tmp

/-- The buffer that is sent, with `j` and `send_size`. -/
structure SendLoop where
  buf : List UInt8
  j : Nat
  sendSize : Nat

/-- `buf[j++] = b` -/
def SendLoop.put (s : SendLoop) (b : UInt8) : SendLoop := { s with buf := overwrite s.buf s.j [b], j := s.j + 1 }

/-- A round of the loop, for the byte at `i`. -/
def SendLoop.round (s : SendLoop) (i : Nat) (b : UInt8) : SendLoop :=
  if i = 0 ∨ i = 26 - 1 then s.put b
  else if b = 0x7e then { (s.put 0x7d).put 0x5e with sendSize := s.sendSize + 1 }
  else if b = 0x7d then { (s.put 0x7d).put 0x5d with sendSize := s.sendSize + 1 }
  else s.put b

/-- The loop from the byte at `i` on. -/
def SendLoop.rounds : Nat → List UInt8 → SendLoop → SendLoop
  | _, [], s => s
  | i, b :: bytes, s => rounds (i + 1) bytes (s.round i b)

/-- `unisoc_ec800g_send_cmd_complete`, up to the write: `rid_ec800g`, and the variables behind the loop. -/
def unisocEc800gSendCmdComplete (rid addr size : UInt32) (type : RequestType) : UInt32 × SendLoop :=
  let rid := rid + 1
  let tmp := type.request rid addr size (type.template ++ List.replicate 6 0)
  (rid, SendLoop.rounds 0 (tmp.take 26) ⟨type.template ++ List.replicate 38 0, 0, 26⟩)

/-- The bytes that are written. -/
def SendLoop.sent (s : SendLoop) : List UInt8 := s.buf.take s.sendSize

section Rounds

variable {mem out : List UInt8} {n : Nat}

theorem put_front (b : UInt8) :
    SendLoop.put ⟨overwrite mem 0 out, out.length, n⟩ b = ⟨overwrite mem 0 (out ++ [b]), (out ++ [b]).length, n⟩ := by
  rw [SendLoop.put, overwrite_overwrite, List.length_append, List.length_singleton]

/-- Between the first byte and the last one, a round copies the byte with its escape. -/
theorem round_front {i : Nat} (hi : i ≠ 0 ∧ i ≠ 25) (b : UInt8) :
    SendLoop.round ⟨overwrite mem 0 out, out.length, n⟩ i b =
      ⟨overwrite mem 0 (out ++ stuff [b]), (out ++ stuff [b]).length, n + [b].countP diagCode.reserved⟩ := by
  rw [SendLoop.round, if_neg (by omega)]
  split_ifs with h7e h7d
  · subst h7e
    rw [put_front, put_front, List.append_assoc]
    rfl
  · subst h7d
    rw [put_front, put_front, List.append_assoc]
    rfl
  · have hplain : diagCode.reserved b = false := by simp [diagCode, h7e, h7d]
    rw [put_front, stuff, diagCode.stuff_cons_plain [] hplain, List.countP_singleton, hplain]
    rfl

/-- The rounds between the first byte and the last one. -/
theorem rounds_front (mem out : List UInt8) (n : Nat) {i : Nat} (hi : 0 < i) (bytes : List UInt8)
    (hbytes : i + bytes.length ≤ 25) (rest : List UInt8) :
    SendLoop.rounds i (bytes ++ rest) ⟨overwrite mem 0 out, out.length, n⟩ =
      SendLoop.rounds (i + bytes.length) rest ⟨overwrite mem 0 (out ++ stuff bytes), (out ++ stuff bytes).length,
        n + bytes.countP diagCode.reserved⟩ := by
  induction bytes generalizing i out n with
  | nil => simp [stuff, StuffingCode.stuff]
  | cons b bytes ih =>
      rw [List.length_cons] at hbytes
      have hstuff : stuff ([b] ++ bytes) = stuff [b] ++ stuff bytes := List.flatMap_append
      have hcount : ([b] ++ bytes).countP diagCode.reserved =
          [b].countP diagCode.reserved + bytes.countP diagCode.reserved := List.countP_append
      rw [List.singleton_append] at hstuff hcount
      rw [List.cons_append, SendLoop.rounds, round_front (by omega), ih _ _ (by omega) (by omega), hstuff, hcount,
        List.append_assoc, List.length_cons, Nat.add_assoc n, Nat.add_right_comm i, Nat.add_assoc i]

end Rounds

section Request

variable (type : RequestType) (rid addr size : UInt32)

/-- What stands between the first byte and the last one. -/
def RequestType.inside : List UInt8 := window (type.request rid addr size type.template) 1 25

theorem request_eq :
    type.request rid addr size type.template = [0x7e] ++ type.inside rid addr size ++ [0x7e] := by
  cases type <;> rfl

theorem take_request :
    (type.request rid addr size (type.template ++ List.replicate 6 0)).take 26 =
      [0x7e] ++ type.inside rid addr size ++ [0x7e] := by
  cases type <;> rfl

theorem length_inside : (type.inside rid addr size).length = 24 := by
  cases type <;> rfl

/-- What the loop leaves: the request with its escapes, at the front of the buffer. -/
theorem unisocEc800gSendCmdComplete_eq :
    unisocEc800gSendCmdComplete rid addr size type = (rid + 1,
      ⟨overwrite (type.template ++ List.replicate 38 0) 0 ([0x7e] ++ stuff (type.inside (rid + 1) addr size) ++ [0x7e]),
        ([0x7e] ++ stuff (type.inside (rid + 1) addr size) ++ [0x7e]).length,
        26 + (type.inside (rid + 1) addr size).countP diagCode.reserved⟩) := by
  have hlength := length_inside type (rid + 1) addr size
  have hmid := rounds_front (type.template ++ List.replicate 38 0) [0x7e] 26 Nat.one_pos
    (type.inside (rid + 1) addr size) (by omega) [0x7e]
  rw [unisocEc800gSendCmdComplete, take_request, List.append_assoc, List.singleton_append, SendLoop.rounds]
  have hfirst : SendLoop.round ⟨type.template ++ List.replicate 38 0, 0, 26⟩ 0 0x7e =
      ⟨overwrite (type.template ++ List.replicate 38 0) 0 [0x7e], [(0x7e : UInt8)].length, 26⟩ := rfl
  rw [hfirst, hmid, hlength, SendLoop.rounds, SendLoop.rounds, SendLoop.round, if_pos (Or.inr rfl), put_front]

theorem sent_eq_stuff :
    (unisocEc800gSendCmdComplete rid addr size type).2.sent =
      [0x7e] ++ stuff (type.inside (rid + 1) addr size) ++ [0x7e] := by
  have htotal : ([0x7e] ++ stuff (type.inside (rid + 1) addr size) ++ [0x7e]).length =
      26 + (type.inside (rid + 1) addr size).countP diagCode.reserved := by
    rw [List.length_append, List.length_append, stuff, diagCode.length_stuff, length_inside]
    simp
    omega
  rw [unisocEc800gSendCmdComplete_eq, SendLoop.sent]
  dsimp only
  rw [overwrite_zero, ← htotal, List.take_left]

/-- The request as a command. -/
def RequestType.command : Command :=
  match type with
  | .query => .query addr.toNat
  | .readBlock => .readBlock addr.toNat size.toNat
  | .read32 => .read32 addr.toNat

/-- What is sent is what the dump of a region takes it for. -/
theorem sent_eq_sendCmdComplete :
    (unisocEc800gSendCmdComplete rid addr size type).2.sent =
      sendCmdComplete (rid + 1).toNat (type.command addr size) := by
  have hbody : type.inside (rid + 1) addr size = commandBody (rid + 1).toNat (type.command addr size) := by
    cases type <;> rfl
  have hstuff : ∀ b, diagCode.symbol b = escapeByte b := by
    intro b
    rw [escapeByte]
    split_ifs with h7e h7d
    · rw [h7e]
      rfl
    · rw [h7d]
      rfl
    · simp [StuffingCode.symbol, diagCode, h7e, h7d]
  rw [sent_eq_stuff, hbody, stuff, StuffingCode.stuff, funext hstuff, sendCmdComplete]
  rfl

/-- The 26 bytes of a request, one after the other. -/
def RequestType.plain : List UInt8 :=
  match type with
  | .query =>
      [0x7e] ++ wordBytes rid ++ [0x18, 0x00, 0x0b, 0x00, 0x03, 0xa0, 0x10, 0x00, 0x00, 0x00, 0x00, 0x00] ++
        wordBytes addr ++ [0x01, 0x00, 0x00, 0x00, 0x7e]
  | .readBlock =>
      [0x7e] ++ wordBytes rid ++ [0x18, 0x00, 0x0b, 0x00, 0x03, 0xa0, 0x10, 0x00, 0x00, 0x00, 0x00, 0x00] ++
        wordBytes addr ++ wordBytes size ++ [0x7e]
  | .read32 =>
      [0x7e] ++ wordBytes rid ++ [0x18, 0x00, 0x0b, 0x00, 0x03, 0xa0, 0x10, 0x00, 0x20, 0x00, 0x00, 0x00] ++
        wordBytes addr ++ [0x01, 0x00, 0x00, 0x00, 0x7e]

/-- The template with its fields is these bytes. -/
theorem request_eq_plain : type.request rid addr size type.template = type.plain rid addr size := by
  cases type with
  | query =>
      simp only [RequestType.request, leBytes_toNat]
      rfl
  | readBlock =>
      simp only [RequestType.request, leBytes_toNat]
      rfl
  | read32 =>
      simp only [RequestType.request, leBytes_toNat]
      rfl

end Request

/-- **Requests are framed correctly**: what is sent are two delimiters with none in between, as many bytes as have been
produced and at most the 64 of the buffer, and unstuffed they are the bytes of the template with the next request id,
the address and, for `readBlock`, the size in their places. -/
theorem unisocEc800gSendCmdComplete_framed (type : RequestType) (rid addr size : UInt32) :
    ∃ inside, (unisocEc800gSendCmdComplete rid addr size type).2.sent = [0x7e] ++ inside ++ [0x7e] ∧ 0x7e ∉ inside ∧
      (unisocEc800gSendCmdComplete rid addr size type).2.sendSize =
        (unisocEc800gSendCmdComplete rid addr size type).2.j ∧
      (unisocEc800gSendCmdComplete rid addr size type).2.sendSize = ([0x7e] ++ inside ++ [0x7e]).length ∧
      (unisocEc800gSendCmdComplete rid addr size type).2.sendSize ≤ 64 ∧
      (unisocEc800gSendCmdComplete rid addr size type).2.buf.length = 64 ∧
      [0x7e] ++ diagCode.unstuff inside ++ [0x7e] = type.plain (rid + 1) addr size := by
  have hinside := length_inside type (rid + 1) addr size
  have hlength : (stuff (type.inside (rid + 1) addr size)).length =
      24 + (type.inside (rid + 1) addr size).countP diagCode.reserved := by
    rw [stuff, diagCode.length_stuff, hinside]
  have hcount : (type.inside (rid + 1) addr size).countP diagCode.reserved ≤ 24 := by
    rw [← hinside]
    exact List.countP_le_length
  have htotal : ([0x7e] ++ stuff (type.inside (rid + 1) addr size) ++ [0x7e]).length =
      26 + (type.inside (rid + 1) addr size).countP diagCode.reserved := by
    simp [hlength]
    omega
  refine ⟨stuff (type.inside (rid + 1) addr size), sent_eq_stuff type rid addr size, ?_, ?_⟩
  · intro h
    exact absurd (diagCode.eq_esc_of_mem_stuff h rfl) (by decide)
  · rw [unisocEc800gSendCmdComplete_eq]
    dsimp only
    have hbuf : (type.template ++ List.replicate 38 0 : List UInt8).length = 64 := by cases type <;> rfl
    refine ⟨htotal.symm, htotal.symm, by omega, ?_, ?_⟩
    · rw [length_overwrite _ _ (by rw [htotal, hbuf]; omega), hbuf]
    · rw [stuff, diagCode.unstuff_stuff, ← request_eq_plain, request_eq]

/-- A request with escapes in each of its three fields. -/
theorem unisocEc800gSendCmdComplete_framed_escapes :
    ∃ inside, (unisocEc800gSendCmdComplete 0x7d7e017c 0x8000007e 0x00007d00 .readBlock).2.sent
        = [0x7e] ++ inside ++ [0x7e] ∧
      inside = [0x7d, 0x5d, 0x01, 0x7d, 0x5e, 0x7d, 0x5d, 0x18, 0x00, 0x0b, 0x00, 0x03, 0xa0, 0x10, 0x00, 0x00, 0x00,
        0x00, 0x00, 0x7d, 0x5e, 0x00, 0x00, 0x80, 0x00, 0x7d, 0x5d, 0x00, 0x00] ∧
      (unisocEc800gSendCmdComplete 0x7d7e017c 0x8000007e 0x00007d00 .readBlock).2.sendSize = 31 ∧
      [0x7e] ++ diagCode.unstuff inside ++ [0x7e] = [0x7e, 0x7d, 0x01, 0x7e, 0x7d, 0x18, 0x00, 0x0b, 0x00, 0x03, 0xa0,
        0x10, 0x00, 0x00, 0x00, 0x00, 0x00, 0x7e, 0x00, 0x00, 0x80, 0x00, 0x7d, 0x00, 0x00, 0x7e] := by
  obtain ⟨inside, hsent, -, -, hsize, -, -, hplain⟩ :=
    unisocEc800gSendCmdComplete_framed .readBlock 0x7d7e017c 0x8000007e 0x00007d00
  have hbytes : (unisocEc800gSendCmdComplete 0x7d7e017c 0x8000007e 0x00007d00 .readBlock).2.sent
      = [0x7e] ++ [0x7d, 0x5d, 0x01, 0x7d, 0x5e, 0x7d, 0x5d, 0x18, 0x00, 0x0b, 0x00, 0x03, 0xa0, 0x10, 0x00, 0x00,
        0x00, 0x00, 0x00, 0x7d, 0x5e, 0x00, 0x00, 0x80, 0x00, 0x7d, 0x5d, 0x00, 0x00] ++ [0x7e] := by decide +kernel
  have hinside := List.append_cancel_left (List.append_cancel_right (hsent.symm.trans hbytes))
  refine ⟨inside, hsent, hinside, ?_, hplain.trans (by decide +kernel)⟩
  rw [hsize, hinside]
  rfl

end QLog.Ec800g
