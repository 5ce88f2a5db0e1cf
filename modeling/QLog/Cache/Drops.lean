import QLog.Cache.Integrity

/-! # When the write cache drops a chunk

A chunk that finds no room behind the cached bytes is dropped once the block has its full size, unless moving the cached
bytes to the front leaves room for it *and a byte more*: `size < unused + out` in `__kfifo_write` is strict. So a chunk
that would fill the block to its last byte is dropped as well. -/

namespace QLog

open Library

namespace Kfifo

/-- The part of a chunk that is not written directly. -/
def rest (f : Kfifo) (buf : List UInt8) (env : WriteEnv) : List UInt8 :=
  if f.outPos = f.inPos then buf.drop (min env.direct.accept buf.length) else buf

/-- Part of the chunk is neither written nor cached. -/
def Drops (f : Kfifo) (buf : List UInt8) (env : WriteEnv) : Prop :=
  (f.kfifoWrite buf env).sent ++ (f.kfifoWrite buf env).fifo.pending ≠ f.pending ++ buf

/-- What is not written directly is dropped only where the cache cannot hold it, or where the descriptor reports
`ECONNRESET`, which is the one failure `__kfifo_write` has. -/
def DropsOnlyOverflow (f : Kfifo) (buf : List UInt8) (env : WriteEnv) : Prop :=
  f.Drops buf env →
    cacheSize < f.pending.length + (f.rest buf env).length ∨ (f.kfifoWrite buf env).ok = false

/-- The chunk fills a block of the full size to its last byte, but only once the cached bytes are moved. -/
def ExactFit (f : Kfifo) (buf : List UInt8) : Prop :=
  f.size = cacheSize ∧ 0 < f.outPos ∧ f.pending.length + buf.length = cacheSize

/-! ## The two steps that make room -/

section Room

variable {f : Kfifo} {buf : List UInt8} {env : WriteEnv}

theorem compact_of_room {size : Nat} (h : size ≤ f.size - f.inPos) : f.compact size = f :=
  if_neg fun hc => absurd hc.1 (Nat.not_lt.mpr h)

theorem grow_of_room {size : Nat} (malloc : Option (Nat → UInt8)) (h : size ≤ f.size - f.inPos) :
    f.grow size malloc = f :=
  if_neg fun hc => absurd hc.1 (Nat.not_lt.mpr h)

theorem grow_of_full {size : Nat} (malloc : Option (Nat → UInt8)) (h : f.size = cacheSize) :
    f.grow size malloc = f :=
  if_neg fun hc => absurd hc.2 (Nat.not_lt.mpr (Nat.le_of_eq h.symm))

/-- What grows to a block with room for a step. -/
theorem grow_fields {size : Nat} (mem : Nat → UInt8) (hunused : f.size - f.inPos < size) (hsize : f.size < cacheSize) :
    (f.grow size (some mem)).inPos = f.inPos - f.outPos ∧ (f.grow size (some mem)).outPos = 0 ∧
      (f.grow size (some mem)).size = f.size + cacheStep := by
  simp only [grow, if_pos (And.intro hunused hsize), and_self]

theorem store_dropped_eq_zero (h : buf.length ≤ f.size - f.inPos) : (f.store buf).2 = 0 := by
  simp only [store, if_neg (Nat.not_lt.mpr h)]

theorem store_dropped_eq_length (h : f.size - f.inPos < buf.length) : (f.store buf).2 = buf.length := by
  simp only [store, if_pos h]

/-- **When what is to be cached is dropped**: where the block has its full size, there is no room behind the cached
bytes, and with them the chunk reaches the limit. -/
theorem store_dropped_iff (hf : f.Valid) {malloc : Option (Nat → UInt8)} (hlen : buf.length ≤ cacheStep)
    (hmalloc : malloc ≠ none) :
    (((f.compact buf.length).grow buf.length malloc).store buf).2 ≠ 0 ↔
      f.size = cacheSize ∧ f.size - f.inPos < buf.length ∧ cacheSize ≤ f.pending.length + buf.length := by
  have hin := hf.in_le_size
  have hout := hf.out_le_in
  have hmax := hf.size_le
  rw [hf.length_pending]
  by_cases hroom : buf.length ≤ f.size - f.inPos
  · rw [compact_of_room hroom, grow_of_room malloc hroom, store_dropped_eq_zero hroom]
    refine iff_of_false (fun h => h rfl) ?_
    rintro ⟨-, hnone, -⟩
    exact absurd hroom (Nat.not_le.mpr hnone)
  · have hunused : f.size - f.inPos < buf.length := Nat.not_le.mp hroom
    by_cases hmove : buf.length < f.size - f.inPos + f.outPos
    · -- moving the cached bytes leaves more than enough
      have hfree : buf.length ≤ (f.compact buf.length).size - (f.compact buf.length).inPos := by
        simp only [compact, if_pos (And.intro hunused hmove)]
        omega
      rw [grow_of_room malloc hfree, store_dropped_eq_zero hfree]
      refine iff_of_false (fun h => h rfl) ?_
      omega
    · have hsame : f.compact buf.length = f := if_neg fun hc => hmove hc.2
      rw [hsame]
      by_cases hsize : f.size < cacheSize
      · obtain ⟨mem, rfl⟩ := Option.ne_none_iff_exists'.mp hmalloc
        obtain ⟨hin', -, hsize'⟩ := grow_fields mem hunused hsize
        have hfree : buf.length ≤ (f.grow buf.length (some mem)).size - (f.grow buf.length (some mem)).inPos := by
          rw [hin', hsize']
          omega
        rw [store_dropped_eq_zero hfree]
        refine iff_of_false (fun h => h rfl) ?_
        omega
      · have hfull : f.size = cacheSize := Nat.le_antisymm hmax (Nat.not_lt.mp hsize)
        rw [grow_of_full malloc hfull, store_dropped_eq_length hunused]
        refine iff_of_true (by omega) ⟨hfull, hunused, by omega⟩

end Room

/-! ## One write -/

section Write

variable {f : Kfifo} {buf : List UInt8} {env : WriteEnv}

/-- Behind cached bytes a chunk goes into the cache. -/
theorem kfifoWrite_of_pending (h : f.outPos ≠ f.inPos) : f.kfifoWrite buf env = f.enqueue [] buf env := by
  simp only [kfifoWrite, if_neg h]

/-- Unless the chunk is refused, bytes are dropped exactly if `drop` grows. -/
theorem drops_iff (hf : f.Valid) (href : ¬ f.Refused buf env) :
    f.Drops buf env ↔ (f.kfifoWrite buf env).dropped ≠ 0 ∧ buf ≠ [] := by
  have hkeep := (kfifoWrite_spec hf buf env).2 href
  rw [Drops, hkeep, ne_eq, List.append_cancel_left_eq, List.take_eq_self_iff]
  have hlen : buf = [] ↔ buf.length = 0 := List.length_eq_zero_iff.symm
  rw [ne_eq, ne_eq, hlen]
  omega

/-- **When a write drops bytes**, of a chunk of up to one step that is not refused. -/
theorem drops_iff_full (hf : f.Valid) (hlen : buf.length ≤ cacheStep) (hmalloc : env.malloc ≠ none)
    (href : ¬ f.Refused buf env) :
    f.Drops buf env ↔ f.size = cacheSize ∧ f.size - f.inPos < buf.length ∧
      cacheSize ≤ f.pending.length + buf.length := by
  rw [drops_iff hf href]
  by_cases hempty : f.outPos = f.inPos
  · -- an empty cache has room for a step
    have hshort : f.pending.length + buf.length < cacheSize := by
      rw [pending_eq_nil hempty, List.length_nil]
      unfold cacheSize cacheStep at *
      omega
    refine iff_of_false ?_ (by omega)
    rintro ⟨hdropped, -⟩
    rcases overflows_of_kfifoWrite_dropped hf hdropped with hfull | hlong | hnone
    · exact absurd hfull (Nat.not_le.mpr hshort)
    · exact absurd hlen (Nat.not_le.mpr hlong)
    · exact hmalloc hnone
  · rw [kfifoWrite_of_pending hempty]
    show (((f.compact buf.length).grow buf.length env.malloc).store buf).2 ≠ 0 ∧ _ ↔ _
    rw [store_dropped_iff hf hlen hmalloc, and_iff_left_iff_imp]
    rintro ⟨-, hunused, -⟩
    exact List.ne_nil_of_length_pos (Nat.zero_lt_of_lt hunused)

/-- A drop at an exact fit is reported only by the write from the cache. -/
theorem ok_of_exactFit (hf : f.Valid) (h : f.ExactFit buf) :
    (f.kfifoWrite buf env).ok = false ↔ env.drain.accept = 0 ∧ env.drain.errno = econnreset := by
  obtain ⟨hfull, hout, hfit⟩ := h
  have hin := hf.in_le_size
  have hlt : f.outPos < f.inPos := by
    refine Nat.lt_of_le_of_ne hf.out_le_in fun heq => ?_
    have hzero := hf.empty heq
    omega
  rw [hf.length_pending] at hfit
  have hsame : f.compact buf.length = f := if_neg fun hc => by omega
  have hdropped : f.store buf = (f, buf.length) := if_pos (by omega)
  rw [kfifoWrite_of_pending (Nat.ne_of_lt hlt)]
  simp only [enqueue]
  rw [hsame, grow_of_full env.malloc hfull, hdropped]
  simp only [drain]
  rw [if_neg (by omega)]
  split
  · next hsome => exact iff_of_false (by simp) (by omega)
  · next hnone =>
      have haccept : env.drain.accept = 0 := by omega
      split
      · next herr => exact iff_of_true rfl ⟨haccept, herr⟩
      · next herr => exact iff_of_false (by simp) fun h => herr h.2

/-- A cache in use at the limit and an exact fit: the one chunk that is dropped though there is room. -/
theorem dropsOnlyOverflow_iff (hf : f.Valid) (hlen : buf.length ≤ cacheStep) (hmalloc : env.malloc ≠ none) :
    f.DropsOnlyOverflow buf env ↔
      ¬ (f.ExactFit buf ∧ ¬ (env.drain.accept = 0 ∧ env.drain.errno = econnreset)) := by
  by_cases href : f.Refused buf env
  · -- a refused chunk is reported, and it meets an empty cache
    refine iff_of_true (fun _ => Or.inr ?_) ?_
    · rw [kfifoWrite_refused href]
    · rintro ⟨⟨-, hout, -⟩, -⟩
      have hzero := hf.empty href.1
      have heq := href.1
      omega
  · have hin := hf.in_le_size
    have hout_le := hf.out_le_in
    have hpending := hf.length_pending
    rw [DropsOnlyOverflow, drops_iff_full hf hlen hmalloc href]
    constructor
    · rintro honly ⟨hfit, hquiet⟩
      obtain ⟨hfull, hout, hexact⟩ := id hfit
      have hrest : f.rest buf env = buf := if_neg fun heq => by
        have hzero := hf.empty heq
        omega
      rw [← ok_of_exactFit hf hfit] at hquiet
      rcases honly ⟨hfull, by omega, by omega⟩ with hover | hreset
      · rw [hrest] at hover
        omega
      · exact hquiet hreset
    · rintro hno ⟨hfull, hunused, hreach⟩
      have hrest : f.rest buf env = buf := if_neg fun heq => by
        rw [pending_eq_nil heq, List.length_nil] at hreach
        unfold cacheSize cacheStep at *
        omega
      rw [hrest]
      by_cases hover : cacheSize < f.pending.length + buf.length
      · exact Or.inl hover
      · have hfit : f.ExactFit buf := ⟨hfull, by omega, by omega⟩
        refine Or.inr ((ok_of_exactFit hf hfit).mpr ?_)
        by_contra hquiet
        exact hno ⟨hfit, hquiet⟩

end Write

end Kfifo

/-! ## The chunk that fits and is dropped -/

/-- A cache of so many steps that is full, with the offsets `out` and `in`. -/
structure Kfifo.Filled (f : Kfifo) (steps out : Nat) : Prop where
  inPos : f.inPos = steps * cacheStep
  outPos : f.outPos = out
  size : f.size = steps * cacheStep

/-- The descriptor takes nothing directly, and up to `accept` bytes from the cache. -/
def blocked (accept : Nat) : WriteEnv := ⟨⟨0, 11⟩, some fun _ => 0, ⟨accept, 11⟩⟩

namespace Kfifo

variable {f : Kfifo} {steps : Nat} {buf : List UInt8}

/-- A full cache of less than the limit grows by a step for a chunk of one. -/
theorem Filled.kfifoWrite (hf : f.Filled steps 0) (hsteps : steps < 8) (hbuf : buf.length = cacheStep) {accept : Nat}
    (haccept : accept < cacheStep) : (f.kfifoWrite buf (blocked accept)).fifo.Filled (steps + 1) accept := by
  obtain ⟨hin, hout, hsize⟩ := hf
  have hlimit : f.size < cacheSize := by
    rw [hsize]
    unfold cacheSize cacheStep
    omega
  -- nothing is written directly, whether anything is cached or not
  have henqueue : f.kfifoWrite buf (blocked accept) = f.enqueue [] buf (blocked accept) := by
    simp only [Kfifo.kfifoWrite, blocked, Nat.zero_min, Nat.lt_irrefl, if_false, econnreset, ite_self,
      Nat.reduceEqDiff]
  have hfull : f.size - f.inPos < buf.length := by omega
  have hsame : f.compact buf.length = f := if_neg fun hc => by omega
  obtain ⟨hin', hout', hsize'⟩ := grow_fields (fun _ => 0) hfull hlimit
  rw [henqueue]
  simp only [enqueue, blocked]
  rw [hsame]
  generalize f.grow buf.length (some fun _ => 0) = g at *
  have hstored : g.store buf
      = ({ g with data := overwrite g.data g.inPos buf, inPos := g.inPos + buf.length }, 0) := if_neg (by omega)
  have hend : g.inPos + buf.length = (steps + 1) * cacheStep := by
    rw [hin', hin, hout, hbuf, Nat.sub_zero, Nat.succ_mul]
  rw [hstored]
  simp only [drain, hout', hend]
  rw [if_neg (by omega)]
  have hmin : min accept ((steps + 1) * cacheStep - 0) = accept := by omega
  rw [hmin]
  split
  · rw [if_neg (by omega)]
    exact ⟨rfl, Nat.zero_add accept, by rw [hsize', hsize, Nat.succ_mul]⟩
  · next hzero =>
      rw [if_neg (by decide)]
      exact ⟨rfl, (Nat.eq_zero_of_not_pos hzero).symm, by rw [hsize', hsize, Nat.succ_mul]⟩

end Kfifo

/-- Eight chunks of 256 KiB for a descriptor that takes nothing at first, and one byte at last. -/
def fillingOps : List CacheOp :=
  let chunk := List.replicate cacheStep 0
  .alloc 7 :: (List.replicate 7 (.write (some 0) chunk (blocked 0)) ++ [.write (some 0) chunk (blocked 1)])

open KfifoTable

theorem call_write_self (t : KfifoTable) (i : Fin fifoNum) (buf : List UInt8) (env : WriteEnv) :
    (t.call (.write (some i) buf env)).1 i = ((t i).kfifoWrite buf env).fifo := write_self t i buf env

/-- After so many chunks none of which is taken, the cache is full. -/
theorem runSteps_blocked {t : KfifoTable} {i : Fin fifoNum} {steps : Nat} (ht : (t i).Filled steps 0)
    {buf : List UInt8} (hbuf : buf.length = cacheStep) (k : Nat) (hk : steps + k ≤ 8) :
    ((runSteps call t (List.replicate k (.write (some i) buf (blocked 0)))).1 i).Filled (steps + k) 0 := by
  induction k generalizing t steps with
  | zero => exact ht
  | succ k ih =>
      have hstep : ((t.call (.write (some i) buf (blocked 0))).1 i).Filled (steps + 1) 0 := by
        rw [call_write_self]
        exact ht.kfifoWrite (by omega) hbuf (by decide)
      have hrest := ih hstep (by omega)
      rwa [Nat.add_assoc, Nat.add_comm 1 k] at hrest

theorem fillingOps_filled : ((runSteps call kfifoTable fillingOps).1 0).Filled 8 1 := by
  have hchunk : (List.replicate cacheStep (0 : UInt8)).length = cacheStep := List.length_replicate
  have hempty : ((kfifoTable.call (.alloc 7)).1 0).Filled 0 0 := ⟨rfl, rfl, rfl⟩
  have hseven := runSteps_blocked hempty hchunk 7 (by decide)
  rw [fillingOps, runSteps_cons, prepend_fst, runSteps_append, prepend_fst, runSteps_singleton,
    call_write_self]
  exact hseven.kfifoWrite (by decide) hchunk (by decide)

/-- Every call that fills the cache is one that its use allows. -/
theorem fillingOps_within : ∀ op ∈ fillingOps, op.WithinUse 0 := by
  have hwrite : ∀ accept, CacheOp.WithinUse 0 (.write (some 0) (List.replicate cacheStep 0) (blocked accept)) := by
    intro accept _
    rw [List.length_replicate]
    exact ⟨by decide, Nat.le_refl _, Option.some_ne_none _⟩
  intro op hop
  rcases List.mem_cons.mp hop with rfl | hop
  · trivial
  · rcases List.mem_append.mp hop with hop | hop
    · rw [List.eq_of_mem_replicate hop]
      exact hwrite 0
    · rw [List.mem_singleton.mp hop]
      exact hwrite 1

theorem fillingOps_valid : Kfifo.Valid ((runSteps call kfifoTable fillingOps).1 0) :=
  runSteps_invariant call call_valid kfifoTable fillingOps kfifoTable_valid 0

/-- What is cached in the end leaves room for one byte more. -/
theorem length_pending_fillingOps : ((runSteps call kfifoTable fillingOps).1 0).pending.length + 1 = cacheSize := by
  obtain ⟨hin, hout, -⟩ := fillingOps_filled
  rw [fillingOps_valid.length_pending, hin, hout]
  decide

theorem fillingOps_exactFit : ((runSteps call kfifoTable fillingOps).1 0).ExactFit [0] := by
  obtain ⟨-, hout, hsize⟩ := fillingOps_filled
  refine ⟨hsize, by rw [hout]; exact Nat.one_pos, ?_⟩
  rw [List.length_singleton]
  exact length_pending_fillingOps

/-- Behind 2 MiB less a byte, one byte is dropped, though no failure is reported. -/
theorem kfifoWrite_drops_fitting_byte :
    let f := (runSteps call kfifoTable fillingOps).1 0
    (∀ op ∈ fillingOps, op.WithinUse 0) ∧ f.pending.length + 1 = cacheSize ∧
      ¬ f.DropsOnlyOverflow [0] (blocked 0) := by
  refine ⟨fillingOps_within, length_pending_fillingOps, fun honly => ?_⟩
  exact (Kfifo.dropsOnlyOverflow_iff fillingOps_valid (by decide) (Option.some_ne_none _)).mp honly
    ⟨fillingOps_exactFit, by decide⟩

/-- **What a write cache drops.** In every state of the table that calls can lead to, with memory to be had and for
every chunk of up to 256 KiB: what is not written directly is dropped only where the cached bytes and it exceed the
limit, or where `ECONNRESET` is reported, *unless* the chunk fills the block of the full size to its last byte and the
front of the block is free, while the write from the cache does not report `ECONNRESET`. -/
theorem kfifoWrite_dropsOnlyOverflow_iff (ops : List CacheOp) (i : Fin fifoNum) (buf : List UInt8) (env : WriteEnv)
    (hlen : buf.length ≤ cacheStep) (hmalloc : env.malloc ≠ none) :
    let f := (runSteps call kfifoTable ops).1 i
    f.DropsOnlyOverflow buf env ↔
      ¬ (f.ExactFit buf ∧ ¬ (env.drain.accept = 0 ∧ env.drain.errno = econnreset)) := by
  intro f
  have hvalid : f.Valid := runSteps_invariant call call_valid kfifoTable ops kfifoTable_valid i
  exact Kfifo.dropsOnlyOverflow_iff hvalid hlen hmalloc

/-- Behind 2 MiB less a byte, a chunk of one byte is dropped without need, and one of two bytes with. -/
theorem kfifoWrite_dropsOnlyOverflow_iff_fullCache :
    let f := (runSteps call kfifoTable fillingOps).1 0
    f.pending.length + 1 = cacheSize ∧ ¬ f.DropsOnlyOverflow [0] (blocked 0) ∧
      f.DropsOnlyOverflow [0, 0] (blocked 0) := by
  refine ⟨length_pending_fillingOps, fun honly => ?_, ?_⟩
  · exact (kfifoWrite_dropsOnlyOverflow_iff fillingOps 0 [0] (blocked 0) (by decide) (Option.some_ne_none _)).mp honly
      ⟨fillingOps_exactFit, by decide⟩
  · refine (kfifoWrite_dropsOnlyOverflow_iff fillingOps 0 [0, 0] (blocked 0) (by decide)
      (Option.some_ne_none _)).mpr ?_
    rintro ⟨⟨-, -, hexact⟩, -⟩
    have hpending := length_pending_fillingOps
    rw [List.length_cons, List.length_singleton] at hexact
    omega

end QLog
