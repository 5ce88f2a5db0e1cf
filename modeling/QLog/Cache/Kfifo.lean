import Mathlib.Data.Fin.Basic
import Mathlib.Data.List.FinRange
import Mathlib.Logic.Function.Basic
import QLog.Library.ByteBuffer
import QLog.Library.Transducer

/-! # The write cache

A log descriptor is written through one of twelve caches (`struct __kfifo` of `tty2tcp.c`). A chunk goes out
directly while nothing is cached; what the descriptor does not accept is kept, the cache growing in steps of
256 KiB up to 2 MiB, and a chunk that does not fit is dropped.

The descriptor and the allocator are the environment of a call: how much each of its two writes accepts, what
`errno` holds when one accepts nothing, and what `malloc` returns. -/

namespace QLog

open Library

/-- `CACHE_SIZE` -/
def cacheSize : Nat := 2 * 1024 * 1024

/-- `cache_step` -/
def cacheStep : Nat := 256 * 1024

/-- `struct __kfifo`. The fields `in` and `out` are `inPos` and `outPos`; `data` is empty where the source
has a null pointer. -/
structure Kfifo where
  fd : Int
  inPos : Nat
  outPos : Nat
  size : Nat
  data : List UInt8

/-- What a call of `qlog_poll_write` without a timeout does: it accepts up to `accept` bytes of what it is
given, and leaves `errno`. -/
structure PollResult where
  accept : Nat
  errno : Nat

/-- `ECONNRESET` -/
def econnreset : Nat := 104

/-- What one `kfifo_write` meets: the result of the direct write, what `malloc` returns (with the content of
the fresh memory), and the result of the write from the cache. -/
structure WriteEnv where
  direct : PollResult
  malloc : Option (Nat → UInt8)
  drain : PollResult

/-- What one `__kfifo_write` did: the cache it left, the bytes the descriptor accepted, what it added to
`drop`, and its result. -/
structure KfifoWritten where
  fifo : Kfifo
  sent : List UInt8
  dropped : Nat
  ok : Bool

namespace Kfifo

/-- The cached bytes, `data[out..in)`. -/
def pending (f : Kfifo) : List UInt8 := window f.data f.outPos f.inPos

/-- Lines 66-72: make room by moving the cached bytes to the front. -/
def compact (f : Kfifo) (size : Nat) : Kfifo :=
  let unused := f.size - f.inPos
  if unused < size ∧ size < unused + f.outPos then
    { f with
      data := overwrite f.data 0 (window f.data f.outPos f.inPos)
      inPos := f.inPos - f.outPos
      outPos := 0 }
  else f

/-- Lines 74-94: make room by moving the cached bytes to a larger block. -/
def grow (f : Kfifo) (size : Nat) (malloc : Option (Nat → UInt8)) : Kfifo :=
  let unused := f.size - f.inPos
  if unused < size ∧ f.size < cacheSize then
    match malloc with
    -- without memory the old block is kept, and the chunk may not fit
    | none => f
    | some mem =>
        let data := (List.range (f.size + cacheStep)).map mem
        { f with
          data := if f.data = [] then data else overwrite data 0 (window f.data f.outPos f.inPos)
          inPos := f.inPos - f.outPos
          outPos := 0
          size := f.size + cacheStep }
  else f

/-- Lines 96-114: append the chunk, or drop it and add its size to `drop`. -/
def store (f : Kfifo) (buf : List UInt8) : Kfifo × Nat :=
  let unused := f.size - f.inPos
  if unused < buf.length then (f, buf.length)
  else ({ f with data := overwrite f.data f.inPos buf, inPos := f.inPos + buf.length }, 0)

/-- Lines 116-136: write from the cache. -/
def drain (f : Kfifo) (r : PollResult) : Kfifo × List UInt8 × Bool :=
  let len := f.inPos - f.outPos
  if len = 0 then (f, [], true)
  else
    let nbytes := min r.accept len
    if 0 < nbytes then
      -- an emptied cache starts at the front again
      let out := f.outPos + nbytes
      (if out = f.inPos then { f with inPos := 0, outPos := 0 } else { f with outPos := out },
        (window f.data f.outPos f.inPos).take nbytes, true)
    else if r.errno = econnreset then (f, [], false)
    else (f, [], true)

/-- Lines 66-138: cache what is left of the chunk behind `sent`, then write from the cache. -/
def enqueue (f : Kfifo) (sent buf : List UInt8) (env : WriteEnv) : KfifoWritten :=
  let stored := ((f.compact buf.length).grow buf.length env.malloc).store buf
  let drained := stored.1.drain env.drain
  ⟨drained.1, sent ++ drained.2.1, stored.2, drained.2.2⟩

/-- `__kfifo_write`: a chunk is given to the descriptor directly where nothing is cached. -/
def kfifoWrite (f : Kfifo) (buf : List UInt8) (env : WriteEnv) : KfifoWritten :=
  if f.outPos = f.inPos then
    let nbytes := min env.direct.accept buf.length
    if 0 < nbytes then
      if nbytes = buf.length then ⟨f, buf, 0, true⟩
      else f.enqueue (buf.take nbytes) (buf.drop nbytes) env
    -- a write that accepts nothing looks at `errno`, whoever set it
    else if env.direct.errno = econnreset then ⟨f, [], 0, false⟩
    else f.enqueue [] buf env
  else f.enqueue [] buf env

/-! ## The shape of a cache -/

/-- The offsets are in order and inside the block, whose size is a number of steps up to the limit, and an
empty cache starts at the front. -/
structure Valid (f : Kfifo) : Prop where
  out_le_in : f.outPos ≤ f.inPos
  in_le_size : f.inPos ≤ f.size
  size_le : f.size ≤ cacheSize
  steps : cacheStep ∣ f.size
  block : f.data.length = f.size
  empty : f.outPos = f.inPos → f.inPos = 0

theorem Valid.length_pending {f : Kfifo} (hf : f.Valid) : f.pending.length = f.inPos - f.outPos := by
  apply length_window
  rw [hf.block]
  exact hf.in_le_size

theorem pending_eq_nil {f : Kfifo} (h : f.outPos = f.inPos) : f.pending = [] := by
  rw [pending, h, window_self]

/-- A whole number of steps below the limit leaves room for one more. -/
theorem Valid.grown_size_le {f : Kfifo} (hf : f.Valid) (h : f.size < cacheSize) :
    f.size + cacheStep ≤ cacheSize := by
  obtain ⟨k, hk⟩ := hf.steps
  unfold cacheSize cacheStep at *
  omega

/-! ## What each part of a write keeps -/

/-- The cached bytes, moved to the front of a block with room for them. -/
theorem Valid.window_moved {f : Kfifo} (hf : f.Valid) (mem : List UInt8) :
    window (overwrite mem 0 (window f.data f.outPos f.inPos)) 0 (f.inPos - f.outPos) = f.pending := by
  have h := window_overwrite_self mem f.pending (Nat.zero_le mem.length)
  rwa [Nat.zero_add, hf.length_pending] at h

theorem Valid.length_moved {f : Kfifo} (hf : f.Valid) {mem : List UInt8} (h : f.size ≤ mem.length) :
    (overwrite mem 0 (window f.data f.outPos f.inPos)).length = mem.length := by
  apply length_overwrite
  have hlen := hf.length_pending
  have hin := hf.in_le_size
  unfold pending at hlen
  omega

/-- `compact` keeps the cached bytes and the shape. -/
theorem compact_spec {f : Kfifo} (hf : f.Valid) (size : Nat) :
    (f.compact size).Valid ∧ (f.compact size).pending = f.pending := by
  unfold compact
  dsimp only
  split_ifs with h
  · have hsize : f.inPos - f.outPos ≤ f.size := Nat.le_trans (Nat.sub_le _ _) hf.in_le_size
    refine ⟨⟨Nat.zero_le _, hsize, hf.size_le, hf.steps, ?_, fun h0 => h0.symm⟩, hf.window_moved _⟩
    rw [hf.length_moved (Nat.le_of_eq hf.block.symm), hf.block]
  · exact ⟨hf, rfl⟩

/-- `grow` keeps the cached bytes and the shape. -/
theorem grow_spec {f : Kfifo} (hf : f.Valid) (size : Nat) (malloc : Option (Nat → UInt8)) :
    (f.grow size malloc).Valid ∧ (f.grow size malloc).pending = f.pending := by
  unfold grow
  dsimp only
  split
  · rename_i h
    cases malloc with
    | none => exact ⟨hf, rfl⟩
    | some mem =>
        have hin := hf.in_le_size
        have hout := hf.out_le_in
        have hsize : f.inPos - f.outPos ≤ f.size + cacheStep := by omega
        have hsteps : cacheStep ∣ f.size + cacheStep := Nat.dvd_add hf.steps (Nat.dvd_refl _)
        have hmax : f.size + cacheStep ≤ cacheSize := hf.grown_size_le h.2
        have hblock : ((List.range (f.size + cacheStep)).map mem).length = f.size + cacheStep := by
          rw [List.length_map, List.length_range]
        by_cases hnull : f.data = []
        · -- a null pointer means that nothing was cached
          have hzero : f.inPos = 0 := by
            have hb := hf.block
            rw [hnull, List.length_nil] at hb
            omega
          simp only [if_pos hnull]
          refine ⟨⟨Nat.zero_le _, hsize, hmax, hsteps, ?_, fun h0 => h0.symm⟩, ?_⟩
          · dsimp only
            exact hblock
          · simp [pending, window, hzero]
        · simp only [if_neg hnull]
          refine ⟨⟨Nat.zero_le _, hsize, hmax, hsteps, ?_, fun h0 => h0.symm⟩, hf.window_moved _⟩
          have hfit : f.size ≤ ((List.range (f.size + cacheStep)).map mem).length := by
            rw [hblock]
            exact Nat.le_add_right _ _
          exact (hf.length_moved hfit).trans hblock
  · exact ⟨hf, rfl⟩

/-- `store` appends what it does not drop. -/
theorem store_spec {f : Kfifo} (hf : f.Valid) (buf : List UInt8) :
    (f.store buf).1.Valid ∧
      (f.store buf).1.pending = f.pending ++ buf.take (buf.length - (f.store buf).2) := by
  unfold store
  dsimp only
  split_ifs with h
  · refine ⟨hf, ?_⟩
    rw [Nat.sub_self, List.take_zero, List.append_nil]
  · have hin := hf.in_le_size
    have hout := hf.out_le_in
    have hroom : f.inPos + buf.length ≤ f.size := by omega
    refine ⟨⟨Nat.le_trans hout (Nat.le_add_right _ _), hroom, hf.size_le, hf.steps, ?_, ?_⟩, ?_⟩
    · rw [length_overwrite _ _ (by rw [hf.block]; exact hroom), hf.block]
    · -- only an empty chunk stored into an empty cache leaves it empty
      intro heq
      replace heq : f.outPos = f.inPos + buf.length := heq
      show f.inPos + buf.length = 0
      have hzero := hf.empty (by omega)
      omega
    · rw [Nat.sub_zero, List.take_length]
      exact window_overwrite_append f.data buf hout (by rw [hf.block]; exact hin)

/-- `drain` takes what the descriptor accepts off the front of the cached bytes. -/
theorem drain_spec {f : Kfifo} (hf : f.Valid) (r : PollResult) :
    (f.drain r).1.Valid ∧ (f.drain r).2.1 ++ (f.drain r).1.pending = f.pending := by
  have hin := hf.in_le_size
  have hout := hf.out_le_in
  unfold drain
  dsimp only
  split_ifs with hlen hacc hall herr
  · exact ⟨hf, rfl⟩
  · -- all of it went out, and both offsets are 0
    refine ⟨⟨Nat.le_refl _, Nat.zero_le _, hf.size_le, hf.steps, hf.block, fun _ => rfl⟩, ?_⟩
    have htake : (window f.data f.outPos f.inPos).take (min r.accept (f.inPos - f.outPos))
        = f.pending := by
      apply List.take_of_length_le
      rw [← pending, hf.length_pending]
      omega
    rw [htake]
    exact (congrArg (f.pending ++ ·) (window_self f.data 0)).trans (List.append_nil _)
  · -- a front of it went out
    refine ⟨⟨?_, hin, hf.size_le, hf.steps, hf.block, fun h => absurd h hall⟩, ?_⟩
    · show f.outPos + min r.accept (f.inPos - f.outPos) ≤ f.inPos
      omega
    · show _ ++ window f.data (f.outPos + min r.accept (f.inPos - f.outPos)) f.inPos = f.pending
      rw [← drop_window, List.take_append_drop, pending]
  · exact ⟨hf, rfl⟩
  · exact ⟨hf, rfl⟩

/-! ## The descriptor of a cache -/

theorem compact_fd (f : Kfifo) (size : Nat) : (f.compact size).fd = f.fd := by
  unfold compact
  dsimp only
  split <;> rfl

theorem grow_fd (f : Kfifo) (size : Nat) (malloc : Option (Nat → UInt8)) :
    (f.grow size malloc).fd = f.fd := by
  unfold grow
  dsimp only
  split
  · cases malloc <;> rfl
  · rfl

theorem store_fd (f : Kfifo) (buf : List UInt8) : (f.store buf).1.fd = f.fd := by
  unfold store
  dsimp only
  split <;> rfl

theorem drain_fd (f : Kfifo) (r : PollResult) : (f.drain r).1.fd = f.fd := by
  unfold drain
  dsimp only
  split_ifs <;> rfl

theorem enqueue_fd (f : Kfifo) (sent buf : List UInt8) (env : WriteEnv) :
    (f.enqueue sent buf env).fifo.fd = f.fd := by
  simp only [enqueue]
  rw [drain_fd, store_fd, grow_fd, compact_fd]

/-- A write does not change the descriptor. -/
theorem kfifoWrite_fd (f : Kfifo) (buf : List UInt8) (env : WriteEnv) :
    (f.kfifoWrite buf env).fifo.fd = f.fd := by
  unfold kfifoWrite
  dsimp only
  split_ifs
  · rfl
  · exact enqueue_fd f _ _ env
  · rfl
  · exact enqueue_fd f _ _ env
  · exact enqueue_fd f _ _ env

/-! ## When a chunk is dropped -/

/-- With memory to be had, a chunk of up to one step finds room, or the block has its full size. -/
theorem grow_room {f : Kfifo} (hf : f.Valid) {size : Nat} {malloc : Option (Nat → UInt8)}
    (hsize : size ≤ cacheStep) (hmalloc : malloc ≠ none) :
    size ≤ (f.grow size malloc).size - (f.grow size malloc).inPos ∨
      (f.grow size malloc = f ∧ cacheSize ≤ f.size) := by
  have hin := hf.in_le_size
  unfold grow
  dsimp only
  split
  · cases malloc with
    | none => exact absurd rfl hmalloc
    | some mem =>
        -- the cached bytes fit into the old size, so the new step is free
        left
        show size ≤ f.size + cacheStep - (f.inPos - f.outPos)
        omega
  · rename_i h
    by_cases hroom : f.size - f.inPos < size
    · exact Or.inr ⟨rfl, Nat.not_lt.mp fun hlt => h ⟨hroom, hlt⟩⟩
    · exact Or.inl (Nat.not_lt.mp hroom)

/-- A chunk that finds no room even after the cached bytes were moved to the front. -/
theorem compact_room {f : Kfifo} (hf : f.Valid) {size : Nat}
    (h : (f.compact size).size - (f.compact size).inPos < size) :
    f.size ≤ f.inPos - f.outPos + size := by
  have hin := hf.in_le_size
  have hout := hf.out_le_in
  unfold compact at h
  dsimp only at h
  split_ifs at h with hc
  · simp only at h
    omega
  · omega

theorem compact_size (f : Kfifo) (size : Nat) : (f.compact size).size = f.size := by
  unfold compact
  dsimp only
  split_ifs <;> rfl

/-- A chunk meets a cache that may not be able to take it: the cached bytes and the chunk reach the limit,
the chunk is larger than a step, or there is no memory. -/
def Overflows (f : Kfifo) (buf : List UInt8) (env : WriteEnv) : Prop :=
  cacheSize ≤ f.pending.length + buf.length ∨ cacheStep < buf.length ∨ env.malloc = none

theorem overflows_of_store_dropped {f : Kfifo} (hf : f.Valid) {buf : List UInt8} {env : WriteEnv}
    (h : (((f.compact buf.length).grow buf.length env.malloc).store buf).2 ≠ 0) :
    f.Overflows buf env := by
  by_cases hmalloc : env.malloc = none
  · exact Or.inr (Or.inr hmalloc)
  by_cases hsize : buf.length ≤ cacheStep
  · left
    rw [hf.length_pending]
    have hfull : ((f.compact buf.length).grow buf.length env.malloc).size
        - ((f.compact buf.length).grow buf.length env.malloc).inPos < buf.length := by
      by_contra hroom
      exact h (by simp only [store, if_neg hroom])
    rcases grow_room (compact_spec hf buf.length).1 hsize hmalloc with hroom | ⟨hsame, hlimit⟩
    · omega
    · rw [hsame] at hfull
      rw [compact_size] at hlimit
      exact Nat.le_trans hlimit (compact_room hf hfull)
  · exact Or.inr (Or.inl (Nat.not_le.mp hsize))

/-- What is dropped is the whole of what was to be cached. -/
theorem store_dropped (f : Kfifo) (buf : List UInt8) :
    (f.store buf).2 = 0 ∨ (f.store buf).2 = buf.length := by
  unfold store
  dsimp only
  split_ifs
  · exact Or.inr rfl
  · exact Or.inl rfl

/-! ## What a write keeps -/

/-- The caching half of a write, behind the bytes already `sent`. -/
theorem enqueue_spec {f : Kfifo} (hf : f.Valid) (sent buf : List UInt8) (env : WriteEnv) :
    (f.enqueue sent buf env).fifo.Valid ∧
      (f.enqueue sent buf env).sent ++ (f.enqueue sent buf env).fifo.pending
        = sent ++ (f.pending ++ buf.take (buf.length - (f.enqueue sent buf env).dropped)) := by
  obtain ⟨hcompact, hpending⟩ := compact_spec hf buf.length
  obtain ⟨hgrow, hpending'⟩ := grow_spec hcompact buf.length env.malloc
  obtain ⟨hstore, hkept⟩ := store_spec hgrow buf
  obtain ⟨hdrain, hsent⟩ := drain_spec hstore env.drain
  refine ⟨hdrain, ?_⟩
  simp only [enqueue]
  rw [List.append_assoc, hsent, hkept, hpending', hpending]

/-- The direct write was refused with `ECONNRESET`. -/
def Refused (f : Kfifo) (buf : List UInt8) (env : WriteEnv) : Prop :=
  f.outPos = f.inPos ∧ min env.direct.accept buf.length = 0 ∧ env.direct.errno = econnreset

theorem kfifoWrite_refused {f : Kfifo} {buf : List UInt8} {env : WriteEnv}
    (h : f.Refused buf env) : f.kfifoWrite buf env = ⟨f, [], 0, false⟩ := by
  have hnone : ¬ 0 < min env.direct.accept buf.length := by
    rw [h.2.1]
    exact Nat.lt_irrefl 0
  simp only [kfifoWrite, if_pos h.1, if_neg hnone, if_pos h.2.2]

/-- **One write**: the cache keeps its shape, and unless the chunk was refused as a whole, what the descriptor
accepts followed by what is cached afterwards is what was cached before followed by the chunk, less what was
dropped at its end. -/
theorem kfifoWrite_spec {f : Kfifo} (hf : f.Valid) (buf : List UInt8) (env : WriteEnv) :
    (f.kfifoWrite buf env).fifo.Valid ∧
      (¬ f.Refused buf env →
        (f.kfifoWrite buf env).sent ++ (f.kfifoWrite buf env).fifo.pending
          = f.pending ++ buf.take (buf.length - (f.kfifoWrite buf env).dropped)) := by
  by_cases href : f.Refused buf env
  · rw [kfifoWrite_refused href]
    exact ⟨hf, fun h => absurd href h⟩
  unfold kfifoWrite
  dsimp only
  split_ifs with hempty hsome hall herr
  · refine ⟨hf, fun _ => ?_⟩
    show buf ++ f.pending = f.pending ++ buf.take (buf.length - 0)
    rw [pending_eq_nil hempty, List.append_nil, Nat.sub_zero, List.take_length, List.nil_append]
  · -- the rest of a chunk whose front went out directly
    set n := min env.direct.accept buf.length with hn
    obtain ⟨hvalid, hsplit⟩ := enqueue_spec hf (buf.take n) (buf.drop n) env
    refine ⟨hvalid, fun _ => ?_⟩
    have hdrop : (f.enqueue (buf.take n) (buf.drop n) env).dropped ≤ (buf.drop n).length := by
      simp only [enqueue]
      rcases store_dropped ((f.compact (buf.drop n).length).grow (buf.drop n).length env.malloc)
        (buf.drop n) with h | h
      · rw [h]
        exact Nat.zero_le _
      · rw [h]
    rw [hsplit, pending_eq_nil hempty, List.nil_append, List.nil_append]
    rw [List.length_drop] at hdrop ⊢
    have hlen : buf.length - (f.enqueue (buf.take n) (buf.drop n) env).dropped
        = n + (buf.length - n - (f.enqueue (buf.take n) (buf.drop n) env).dropped) := by omega
    rw [hlen, List.take_add]
  · exact absurd ⟨hempty, Nat.eq_zero_of_not_pos hsome, herr⟩ href
  · obtain ⟨hvalid, hsplit⟩ := enqueue_spec hf [] buf env
    exact ⟨hvalid, fun _ => hsplit⟩
  · obtain ⟨hvalid, hsplit⟩ := enqueue_spec hf [] buf env
    exact ⟨hvalid, fun _ => hsplit⟩

/-- Only a chunk that meets a full cache is dropped, or the rest of one. -/
theorem overflows_of_kfifoWrite_dropped {f : Kfifo} (hf : f.Valid) {buf : List UInt8} {env : WriteEnv}
    (h : (f.kfifoWrite buf env).dropped ≠ 0) : f.Overflows buf env := by
  unfold kfifoWrite at h
  dsimp only at h
  split_ifs at h with hempty hsome hall herr
  · exact absurd rfl h
  · -- a shorter chunk overflows only where the whole one does
    have hrest := overflows_of_store_dropped hf h
    rw [Overflows, List.length_drop] at hrest
    rcases hrest with hfull | hlong | hnone
    · exact Or.inl (by omega)
    · exact Or.inr (Or.inl (by omega))
    · exact Or.inr (Or.inr hnone)
  · exact absurd rfl h
  · exact overflows_of_store_dropped hf h
  · exact overflows_of_store_dropped hf h

/-- A chunk is dropped as a whole, or not at all, where it has at most one step and there is memory. -/
theorem kfifoWrite_dropped {f : Kfifo} (hf : f.Valid) {buf : List UInt8} {env : WriteEnv}
    (hsize : buf.length ≤ cacheStep) (hmalloc : env.malloc ≠ none) :
    (f.kfifoWrite buf env).dropped = 0 ∨ (f.kfifoWrite buf env).dropped = buf.length := by
  by_cases hempty : f.outPos = f.inPos
  · left
    by_contra h
    -- an empty cache takes every chunk of up to one step, also the rest of one already partly sent
    rcases overflows_of_kfifoWrite_dropped hf h with hfull | hlong | hnone
    · rw [pending_eq_nil hempty, List.length_nil] at hfull
      unfold cacheSize cacheStep at *
      omega
    · exact absurd hsize (Nat.not_le.mpr hlong)
    · exact hmalloc hnone
  · -- behind cached bytes nothing of the chunk has been sent yet
    simp only [kfifoWrite, if_neg hempty, enqueue]
    exact store_dropped _ buf

end Kfifo

/-! ## The table of caches -/

/-- `FIFO_NUM` -/
abbrev fifoNum : Nat := 12

/-- The array `kfifo`. -/
abbrev KfifoTable := Fin fifoNum → Kfifo

/-- The array as it is initialised. -/
def kfifoTable : KfifoTable := fun _ => ⟨-1, 0, 0, 0, []⟩

namespace KfifoTable

/-- The first slot with a descriptor, `none` for the index `-1`. -/
def find (t : KfifoTable) (fd : Int) : Option (Fin fifoNum) :=
  (List.finRange fifoNum).find? fun i => (t i).fd = fd

/-- `kfifo_idx` -/
def kfifoIdx (t : KfifoTable) (fd : Int) : Option (Fin fifoNum) :=
  if fd = -1 then none else t.find fd

/-- `kfifo_alloc`: the block of an earlier use is kept. -/
def kfifoAlloc (t : KfifoTable) (fd : Int) : KfifoTable × Option (Fin fifoNum) :=
  if fd = -1 then (t, none)
  else
    match t.find (-1) with
    | none => (t, none)
    | some i => (Function.update t i { t i with fd := fd, inPos := 0, outPos := 0 }, some i)

/-- `kfifo_free` -/
def kfifoFree (t : KfifoTable) (idx : Option (Fin fifoNum)) : KfifoTable :=
  match idx with
  | none => t
  | some i => Function.update t i { t i with fd := -1, inPos := 0, outPos := 0 }

/-- `kfifo_write` on a slot of the table. -/
def write (t : KfifoTable) (i : Fin fifoNum) (buf : List UInt8) (env : WriteEnv) : KfifoTable :=
  Function.update t i ((t i).kfifoWrite buf env).fifo

/-- Every cache of the table has its shape. -/
def Valid (t : KfifoTable) : Prop := ∀ i, (t i).Valid

end KfifoTable

end QLog
