import QLog.Library.Transducer
import QLog.Library.Stuffing

/-! # The DIAG deframer (`diag_pkt.c`)

`struct diag_pkt` and `diag_pkt_input`, which turns the bytes read from the port into frames. The decoder
keeps the unstuffed bytes of the open frame in `buf[0..pkt_len)`, and `last_7d` when a chunk ended behind
an escape. In the mode `start_7e` a frame also *starts* with the delimiter `0x7E`; otherwise the delimiter
only ends it.

The model follows the two cursors of the loop: `i`, as the number of iterations left, and `pSrc`, as the
bytes ahead. They advance separately, and one branch advances `i` alone. -/

namespace QLog

open Library

/-- A store `buf[pkt_len++] = …` of `diag_pkt_input`. -/
structure Store where
  /-- The index written. -/
  index : Nat
  /-- Whether the byte came from behind an escape. -/
  escaped : Bool
  deriving DecidableEq, Repr

/-- What the deframer does for one consumed byte. -/
structure Consumed where
  /-- The store into `buf`, if there is one. -/
  store : Option Store
  /-- `pkt_len` after the byte. -/
  pktLen : Nat
  /-- The bytes `buf[0..pkt_len)` given to `handle_pkt`, if it is called. -/
  packet : Option (List UInt8)
  deriving DecidableEq, Repr

/-- `struct diag_pkt`. The flags `start_7e` and `last_7d` are only ever 0 or 1; `buf` stands for
`buf[0..pkt_len)`, so `pkt_len` is its length. -/
structure DiagPkt where
  maxPktLen : Nat
  minPktLen : Nat
  start7e : Bool
  last7d : Bool
  errors : UInt32
  buf : List UInt8
  deriving DecidableEq, Repr

/-- `diag_pkt_malloc`: the decoder before the first byte. -/
def diagPktMalloc (minSize maxSize : Nat) (start7e : Bool) : DiagPkt where
  maxPktLen := maxSize
  minPktLen := minSize
  start7e := start7e
  last7d := false
  errors := 0
  buf := []

namespace DiagPkt

/-- `pkt_len`. -/
def pktLen (p : DiagPkt) : Nat := p.buf.length

/-- `buf[pkt_len++] = b`. -/
def put (p : DiagPkt) (b : UInt8) : DiagPkt := { p with buf := p.buf ++ [b] }

@[simp] theorem pktLen_put (p : DiagPkt) (b : UInt8) : (p.put b).pktLen = p.pktLen + 1 := by
  simp [put, pktLen]

/-- `errors++`, on a `uint32_t`. -/
def fail (p : DiagPkt) : DiagPkt := { p with errors := p.errors + 1 }

/-- `pkt_len = n`, for an `n` not above `pkt_len`: what lies behind is forgotten. -/
def setPktLen (p : DiagPkt) (n : Nat) : DiagPkt := { p with buf := p.buf.take n }

/-- The decoder after one consumed byte, with the record of what was done for it. -/
def seen (p : DiagPkt) (store : Option Store) (packet : Option (List UInt8)) :
    DiagPkt × List Consumed :=
  (p, [⟨store, p.pktLen, packet⟩])

/-- The escape byte `0x7D` itself: nothing is stored. -/
def escape (p : DiagPkt) : DiagPkt × List Consumed := p.seen none none

/-- The byte behind an escape, as both escape paths treat it: outside a frame of the mode `start_7e` it is
only counted as an error. -/
def escaped (p : DiagPkt) (b : UInt8) : DiagPkt × List Consumed :=
  if p.start7e = false ∨ p.pktLen ≠ 0 then
    (p.put (b ^^^ 0x20)).seen (some ⟨p.pktLen, true⟩) none
  else
    p.fail.seen none none

/-- The delimiter `0x7E`: it ends a frame that is long enough, opens one in the mode `start_7e`, and
otherwise throws away what is too short. -/
def delimiter (p : DiagPkt) : DiagPkt × List Consumed :=
  let q := p.put 0x7E
  let store := some ⟨p.pktLen, false⟩
  if q.minPktLen ≤ q.pktLen then
    (q.setPktLen 0).seen store (some q.buf)
  else if q.start7e = true ∧ q.pktLen = 1 then
    -- start of frame
    q.seen store none
  else if q.start7e = true ∧ q.pktLen = 2 then
    -- 7E 7E: the second one starts the frame
    (q.fail.setPktLen 1).seen store none
  else
    (q.fail.setPktLen 0).seen store none

/-- Any other byte: noise outside a frame of the mode `start_7e`, content inside it. Only here is the
length compared with `max_pkt_len`. -/
def plain (p : DiagPkt) (b : UInt8) : DiagPkt × List Consumed :=
  if p.start7e = true ∧ p.pktLen = 0 then
    p.fail.seen none none
  else
    let q := p.put b
    if q.maxPktLen < q.pktLen then
      (q.fail.setPktLen 0).seen (some ⟨p.pktLen, false⟩) none
    else
      q.seen (some ⟨p.pktLen, false⟩) none

end DiagPkt

/-- The `for` loop of `diag_pkt_input`: `n` iterations are left (`size - i`) and `src` lies ahead of
`pSrc`. Behind an escape outside a frame of the mode `start_7e` the loop counts the escaped byte without
advancing `pSrc` past it, so that byte is read again and the last byte of the chunk is not reached. -/
def diagPktLoop : Nat → List UInt8 → DiagPkt → DiagPkt × List Consumed
  | 0, _, p => (p, [])
  | _ + 1, [], p => (p, [])
  | n + 1, c :: src, p =>
    if c = 0x7D then
      match n, src with
      -- `i == size`: the chunk ends behind the escape
      | 0, _ => { p with last7d := true }.escape
      | _ + 1, [] => (p, [])
      | m + 1, d :: src' =>
        let r := p.escaped d
        if p.start7e = false ∨ p.pktLen ≠ 0 then
          prepend (p.escape.2 ++ r.2) (diagPktLoop m src' r.1)
        else
          -- `i` has passed the escaped byte, `pSrc` has not
          prepend (p.escape.2 ++ r.2) (diagPktLoop m (d :: src') r.1)
    else if c = 0x7E then
      prepend p.delimiter.2 (diagPktLoop n src p.delimiter.1)
    else
      prepend (p.plain c).2 (diagPktLoop n src (p.plain c).1)

/-- An escape that ends the chunk is remembered. -/
theorem diagPktLoop_last_escape (src : List UInt8) (p : DiagPkt) :
    diagPktLoop 1 (0x7D :: src) p = { p with last7d := true }.escape := by
  simp [diagPktLoop]

/-- An escape pair where the escaped byte is content: both cursors pass it. -/
theorem diagPktLoop_escape_pair {p : DiagPkt} (n : Nat) (d : UInt8) (src : List UInt8)
    (hp : p.start7e = false ∨ p.pktLen ≠ 0) :
    diagPktLoop (n + 2) (0x7D :: d :: src) p
      = prepend (p.escape.2 ++ (p.escaped d).2) (diagPktLoop n src (p.escaped d).1) := by
  simp [diagPktLoop, hp]

/-- An escape pair outside a frame: two iterations are counted, one byte is passed. -/
theorem diagPktLoop_idle_escape_pair {p : DiagPkt} (n : Nat) (d : UInt8) (src : List UInt8)
    (hp : ¬ (p.start7e = false ∨ p.pktLen ≠ 0)) :
    diagPktLoop (n + 2) (0x7D :: d :: src) p
      = prepend (p.escape.2 ++ (p.escaped d).2) (diagPktLoop n (d :: src) (p.escaped d).1) := by
  simp only [diagPktLoop, if_true, if_neg hp]

theorem diagPktLoop_delimiter (n : Nat) (src : List UInt8) (p : DiagPkt) :
    diagPktLoop (n + 1) (0x7E :: src) p
      = prepend p.delimiter.2 (diagPktLoop n src p.delimiter.1) := by
  rw [diagPktLoop.eq_def]
  rfl

theorem diagPktLoop_plain {c : UInt8} (n : Nat) (src : List UInt8) (p : DiagPkt) (hd : c ≠ 0x7D)
    (he : c ≠ 0x7E) :
    diagPktLoop (n + 1) (c :: src) p
      = prepend (p.plain c).2 (diagPktLoop n src (p.plain c).1) := by
  rw [diagPktLoop.eq_def]
  simp only [if_neg hd, if_neg he]

/-- `diag_pkt_input` on one chunk: first the byte behind an escape that ended the previous chunk, then the
loop. No caller passes an empty chunk. -/
def diagPktInput (p : DiagPkt) (src : List UInt8) : DiagPkt × List Consumed :=
  match p.last7d, src with
  | true, c :: rest =>
    let r := { p with last7d := false }.escaped c
    prepend r.2 (diagPktLoop rest.length rest r.1)
  | _, _ => diagPktLoop src.length src p

/-- The packets given to `handle_pkt`, in order. -/
def packets (trace : List Consumed) : List (List UInt8) := trace.filterMap Consumed.packet

@[simp] theorem packets_append (a b : List Consumed) : packets (a ++ b) = packets a ++ packets b :=
  List.filterMap_append

/-- Chunks passed one after another to `diag_pkt_input`: the final decoder and the packets delivered. -/
def feed (p : DiagPkt) (chunks : List (List UInt8)) : DiagPkt × List (List UInt8) :=
  ((runSteps diagPktInput p chunks).1, packets (runSteps diagPktInput p chunks).2)

/-! ## The senders' side and the two configurations -/

/-- The stuffing of `diag_send_data`: `0x7E` and `0x7D` are written as `0x7D` and the byte with bit `0x20`
flipped. -/
def diagCode : StuffingCode UInt8 where
  esc := 0x7D
  reserved b := b == 0x7E || b == 0x7D
  mask b := b ^^^ 0x20
  reserved_esc := by decide
  mask_mask b := by rw [UInt8.xor_assoc, UInt8.xor_self, UInt8.xor_zero]
  mask_reserved b hb := by
    rw [Bool.or_eq_true, beq_iff_eq, beq_iff_eq] at hb
    obtain rfl | rfl := hb <;> decide

/-- The escape step of `diag_send_data`. -/
def stuff (payload : List UInt8) : List UInt8 := diagCode.stuff payload

/-- The decoder `mdm_init_filter` sets up: no leading delimiter, packets of 4 bytes on (`7b2c3d7e`). -/
def mdmDiagPkt : DiagPkt := diagPktMalloc 4 (9031 + 0) false

/-- `sizeof(DIAG_PACKAGE)`: the 8-byte header, the data array being empty. -/
def sizeofDiagPackage : Nat := 8

/-- The decoder `unisoc_init_filter` sets up: frames start and end with the delimiter. -/
def unisocDiagPkt : DiagPkt := diagPktMalloc (sizeofDiagPackage + 2) (0x4008 + 2) true

end QLog
