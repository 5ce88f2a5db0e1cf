import QLog.Library.ByteBuffer
import QLog.Library.LittleEndian

/-! # Receiving from a device in Sahara mode

`port_rx_data` waits for one read of the port, `sahara_rx_data` collects a block of a known size from several
reads, or a packet from its header and one read of what the header announces. The bytes are written to `q_rx_buf`
as they come, also those of a packet that is given up later.

The answers of the port are a list, one for each call of `port_rx_data` that reads: `none` is a timeout or an
error, and so is the end of the list. -/

namespace QLog

open Library

/-- `Q_SAHARA_RAW_BUF_SZ`, the size of `q_rx_buf`. -/
def qSaharaRawBufSz : Nat := 128 * 1024

/-- `com_port.MAX_TO_READ` -/
def maxToRead : Nat := 1024 * 64

/-- What the port answers to the reads of one call. -/
abbrev PortAnswers : Type := List (Option (List UInt8))

/-- `port_rx_data` for `bytesToRead` bytes: what was read, and the answers left. -/
def portRxData (bytesToRead : Nat) (answers : PortAnswers) : Option (List UInt8) × PortAnswers :=
  if bytesToRead = 0 then (some [], answers)
  else
    match answers with
    | [] => (none, [])
    | none :: answers => (none, answers)
    | some bytes :: answers =>
        -- `read` returns at least one byte, or it has failed
        if bytes = [] then (none, answers) else (some (bytes.take (min bytesToRead maxToRead)), answers)

/-- The `while` loop of `sahara_rx_data`: the bytes received, if all came, and `q_rx_buf`. -/
def saharaRxLoop (bytesToRead : Nat) : List UInt8 → List UInt8 → PortAnswers → Option (List UInt8) × List UInt8
  | got, rxBuf, [] => (if bytesToRead ≤ got.length then some got else none, rxBuf)
  | got, rxBuf, answer :: answers =>
      if bytesToRead ≤ got.length then (some got, rxBuf)
      else
        match (portRxData (bytesToRead - got.length) [answer]).1 with
        | none => (none, rxBuf)
        | some bytes => saharaRxLoop bytesToRead (got ++ bytes) (overwrite rxBuf got.length bytes) answers

/-- `q_cmd` of the packet in a buffer. -/
def qCmd (rxBuf : List UInt8) : Nat := ofLeBytes (window rxBuf 0 4)

/-- `q_len` of the packet in a buffer. -/
def qLen (rxBuf : List UInt8) : Nat := ofLeBytes (window rxBuf 4 8)

/-- `sahara_rx_data (0)`: whether a packet came, and `q_rx_buf`. -/
def saharaRxPacket (rxBuf : List UInt8) (answers : PortAnswers) : Bool × List UInt8 :=
  let rxBuf := overwrite rxBuf 0 (List.replicate 8 0)
  match portRxData 8 answers with
  | (none, _) => (false, rxBuf)
  | (some header, answers) =>
      let rxBuf := overwrite rxBuf 0 header
      if header.length ≠ 8 then (false, rxBuf)
      else if qCmd rxBuf < 0x13 then
        -- a `size_t`: a length below that of the header wraps around
        let rest := (qLen rxBuf + 2 ^ 64 - 8) % 2 ^ 64
        match (portRxData rest answers).1 with
        | none => (false, rxBuf)
        | some bytes => (decide (bytes.length = rest), overwrite rxBuf 8 bytes)
      else (false, rxBuf)

/-- `sahara_rx_data`: the bytes of the block, if all came, and `q_rx_buf`. -/
def saharaRxData (bytesToRead : Nat) (rxBuf : List UInt8) (answers : PortAnswers) :
    Option (List UInt8) × List UInt8 :=
  if bytesToRead = 0 then
    let r := saharaRxPacket rxBuf answers
    (if r.1 then some [] else none, r.2)
  else saharaRxLoop bytesToRead [] rxBuf answers

/-! ## What is received -/

theorem portRxData_length {n : Nat} {answers : PortAnswers} {bytes : List UInt8}
    (h : (portRxData n answers).1 = some bytes) : bytes.length ≤ min n maxToRead := by
  unfold portRxData at h
  split at h
  · cases h
    exact Nat.zero_le _
  · split at h
    · cases h
    · cases h
    · split at h
      · cases h
      · cases h
        exact List.length_take_le _ _

/-- The loop delivers exactly as many bytes as asked for, and leaves them at the front of the buffer. -/
theorem saharaRxLoop_spec {n : Nat} (answers : PortAnswers) (got rxBuf : List UInt8) (hn : n ≤ rxBuf.length)
    (hgot : got.length ≤ n) (hfront : rxBuf.take got.length = got) :
    (saharaRxLoop n got rxBuf answers).2.length = rxBuf.length ∧
      ∀ data, (saharaRxLoop n got rxBuf answers).1 = some data →
        data.length = n ∧ (saharaRxLoop n got rxBuf answers).2.take n = data := by
  induction answers generalizing got rxBuf with
  | nil =>
      refine ⟨rfl, fun data hdata => ?_⟩
      rw [saharaRxLoop] at hdata ⊢
      dsimp only at hdata
      split at hdata
      · have hdone : got.length = n := by omega
        cases hdata
        exact ⟨hdone, hdone ▸ hfront⟩
      · cases hdata
  | cons answer answers ih =>
      rw [saharaRxLoop]
      split
      · have hdone : got.length = n := by omega
        refine ⟨rfl, fun data hdata => ?_⟩
        cases hdata
        exact ⟨hdone, hdone ▸ hfront⟩
      · cases hport : portRxData (n - got.length) [answer] with
        | mk bytes rest =>
            cases bytes with
            | none => exact ⟨rfl, fun data hdata => absurd hdata (by simp)⟩
            | some bytes =>
                have hlen := portRxData_length (congrArg Prod.fst hport)
                have hroom : got.length + bytes.length ≤ rxBuf.length := by omega
                have hbuf : (overwrite rxBuf got.length bytes).length = rxBuf.length :=
                  length_overwrite _ _ hroom
                have htake : (overwrite rxBuf got.length bytes).take (got ++ bytes).length = got ++ bytes := by
                  have hwin := window_overwrite_append rxBuf bytes (Nat.zero_le got.length) (by omega)
                  rw [window_zero, window_zero, hfront] at hwin
                  rwa [List.length_append]
                have hstep := ih (got ++ bytes) (overwrite rxBuf got.length bytes) (by omega)
                  (by rw [List.length_append]; omega) htake
                rw [hbuf] at hstep
                exact hstep

/-- A packet is written inside the buffer. -/
theorem length_saharaRxPacket (rxBuf : List UInt8) (answers : PortAnswers) (hlen : 8 + maxToRead ≤ rxBuf.length) :
    (saharaRxPacket rxBuf answers).2.length = rxBuf.length := by
  have hclear : (overwrite rxBuf 0 (List.replicate 8 0)).length = rxBuf.length := by
    apply length_overwrite
    rw [List.length_replicate]
    omega
  rw [saharaRxPacket]
  cases hport : portRxData 8 answers with
  | mk header answers =>
      cases header with
      | none => exact hclear
      | some header =>
          have hsize := portRxData_length (congrArg Prod.fst hport)
          have hheader : (overwrite (overwrite rxBuf 0 (List.replicate 8 0)) 0 header).length = rxBuf.length := by
            rw [length_overwrite, hclear]
            omega
          dsimp only
          split
          · exact hheader
          · split
            · split
              · exact hheader
              · next bytes hrest =>
                  have hbytes := portRxData_length hrest
                  rw [length_overwrite, hheader]
                  omega
            · exact hheader

/-- **What `sahara_rx_data` delivers**: a successful call has put exactly the bytes asked for at the front of the
buffer. -/
theorem saharaRxData_spec {n : Nat} (rxBuf : List UInt8) (answers : PortAnswers) (hn : n ≤ rxBuf.length)
    (hlen : 8 + maxToRead ≤ rxBuf.length) :
    (saharaRxData n rxBuf answers).2.length = rxBuf.length ∧
      ∀ data, (saharaRxData n rxBuf answers).1 = some data →
        data.length = n ∧ (saharaRxData n rxBuf answers).2.take n = data := by
  rw [saharaRxData]
  split
  · next hzero =>
      refine ⟨length_saharaRxPacket rxBuf answers hlen, fun data hdata => ?_⟩
      dsimp only at hdata
      split at hdata
      · cases hdata
        rw [hzero]
        exact ⟨rfl, rfl⟩
      · cases hdata
  · exact saharaRxLoop_spec answers [] rxBuf hn (Nat.zero_le n) rfl

/-- A device that sends byte by byte. -/
def byteByByte (n : Nat) : PortAnswers := List.replicate n (some [0])

theorem saharaRxLoop_byteByByte (n m : Nat) (got rxBuf : List UInt8) (h : got.length + m = n) :
    (saharaRxLoop n got rxBuf (byteByByte m)).1 = some (got ++ List.replicate m 0) := by
  induction m generalizing got rxBuf with
  | zero =>
      rw [byteByByte, List.replicate_zero, saharaRxLoop, if_pos (by omega), List.replicate_zero, List.append_nil]
  | succ m ih =>
      have hmore : n - got.length ≠ 0 := by omega
      have hone : (portRxData (n - got.length) [some [0]]).1 = some [0] := by
        unfold portRxData
        rw [if_neg hmore]
        dsimp only
        rw [if_neg (List.cons_ne_nil 0 []), List.take_of_length_le]
        show 1 ≤ min (n - got.length) (1024 * 64)
        omega
      rw [byteByByte, List.replicate_succ, saharaRxLoop, if_neg (by omega), hone]
      dsimp only
      rw [← byteByByte, ih _ _ (by rw [List.length_append, List.length_singleton]; omega), List.append_assoc,
        List.replicate_succ]
      rfl

/-- It is received. -/
theorem saharaRxData_byteByByte {n : Nat} (hn : 0 < n) (rxBuf : List UInt8) :
    (saharaRxData n rxBuf (byteByByte n)).1 = some (List.replicate n 0) := by
  rw [saharaRxData, if_neg (by omega)]
  exact saharaRxLoop_byteByByte n n [] rxBuf (Nat.zero_add n)

end QLog
