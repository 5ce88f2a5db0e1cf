import QLog.Cache.Kfifo

/-! # Stream integrity of the write cache

Whatever else happens in the table of caches, what one slot hands to its descriptor is made of whole chunks: a
chunk is dropped or refused as a whole, and what is kept goes out in order. The reason is that a chunk of
which a part went out directly meets an empty cache, which always has room for one step. -/

namespace QLog

open Library

/-- The calls made on the table of caches. An index out of range is `none`. -/
inductive CacheOp
  | alloc (fd : Int)
  | write (idx : Option (Fin fifoNum)) (buf : List UInt8) (env : WriteEnv)
  | free (idx : Option (Fin fifoNum))

namespace KfifoTable

/-- Do one call; the output is what the descriptor of a slot accepted. -/
def call (t : KfifoTable) : CacheOp → KfifoTable × List (Fin fifoNum × List UInt8)
  | .alloc fd => ((t.kfifoAlloc fd).1, [])
  | .write none _ _ => (t, [])
  | .write (some i) buf env => (t.write i buf env, [(i, ((t i).kfifoWrite buf env).sent)])
  | .free idx => (t.kfifoFree idx, [])

theorem kfifoTable_valid : Valid kfifoTable := fun _ =>
  ⟨Nat.le_refl _, Nat.le_refl _, Nat.zero_le _, Nat.dvd_zero _, rfl, fun _ => rfl⟩

/-- A slot whose cached bytes are forgotten has its shape. -/
theorem valid_reset {f : Kfifo} (hf : f.Valid) (fd : Int) :
    Kfifo.Valid { f with fd := fd, inPos := 0, outPos := 0 } :=
  ⟨Nat.le_refl _, Nat.zero_le _, hf.size_le, hf.steps, hf.block, fun _ => rfl⟩

theorem Valid.update {t : KfifoTable} (ht : t.Valid) (i : Fin fifoNum) {f : Kfifo} (hf : f.Valid) :
    Valid (Function.update t i f) := by
  intro j
  by_cases h : j = i
  · subst h
    rwa [Function.update_self]
  · rw [Function.update_of_ne h]
    exact ht j

theorem kfifoAlloc_valid {t : KfifoTable} (ht : t.Valid) (fd : Int) : Valid (t.kfifoAlloc fd).1 := by
  unfold kfifoAlloc
  split
  · exact ht
  · split
    · exact ht
    · exact ht.update _ (valid_reset (ht _) fd)

theorem kfifoFree_valid {t : KfifoTable} (ht : t.Valid) (idx : Option (Fin fifoNum)) :
    Valid (t.kfifoFree idx) := by
  cases idx with
  | none => exact ht
  | some i => exact ht.update i (valid_reset (ht i) (-1))

/-- Every call keeps the shape of every cache. -/
theorem call_valid (t : KfifoTable) (op : CacheOp) (ht : t.Valid) : Valid (t.call op).1 := by
  cases op with
  | alloc fd => exact kfifoAlloc_valid ht fd
  | write idx buf env =>
      cases idx with
      | none => exact ht
      | some i => exact ht.update i (Kfifo.kfifoWrite_spec (ht i) buf env).1
  | free idx => exact kfifoFree_valid ht idx

/-! ## One slot among the others -/

theorem find_fd {t : KfifoTable} {fd : Int} {i : Fin fifoNum} (h : t.find fd = some i) :
    (t i).fd = fd := by
  have hi := List.find?_some h
  exact of_decide_eq_true hi

/-- A slot in use is not given away. -/
theorem kfifoAlloc_of_used {t : KfifoTable} {i : Fin fifoNum} (hi : (t i).fd ≠ -1) (fd : Int) :
    (t.kfifoAlloc fd).1 i = t i := by
  unfold kfifoAlloc
  split
  · rfl
  · split
    · rfl
    · -- the slot given away held `-1`
      rename_i j hj
      have hne : i ≠ j := by
        rintro rfl
        exact hi (find_fd hj)
      exact Function.update_of_ne hne _ _

theorem kfifoFree_of_ne {t : KfifoTable} {i : Fin fifoNum} {idx : Option (Fin fifoNum)}
    (h : idx ≠ some i) : t.kfifoFree idx i = t i := by
  cases idx with
  | none => rfl
  | some j =>
      have hne : i ≠ j := fun hij => h (by rw [hij])
      exact Function.update_of_ne hne _ _

theorem write_of_ne {t : KfifoTable} {i j : Fin fifoNum} (h : i ≠ j) (buf : List UInt8)
    (env : WriteEnv) : t.write j buf env i = t i :=
  Function.update_of_ne h _ _

theorem write_self (t : KfifoTable) (i : Fin fifoNum) (buf : List UInt8) (env : WriteEnv) :
    t.write i buf env i = ((t i).kfifoWrite buf env).fifo :=
  Function.update_self _ _ _

end KfifoTable

/-- The bytes the descriptor of a slot accepted in a run. -/
def acceptedBy (i : Fin fifoNum) (out : List (Fin fifoNum × List UInt8)) : List UInt8 :=
  (out.filter fun o => o.1 = i).flatMap Prod.snd

/-- The chunk a call gives to a slot. -/
def CacheOp.chunk? (i : Fin fifoNum) : CacheOp → Option (List UInt8)
  | .write idx buf _ => if idx = some i then some buf else none
  | _ => none

/-- The chunks given to a slot in a run. -/
def chunksFor (i : Fin fifoNum) (ops : List CacheOp) : List (List UInt8) := ops.filterMap (CacheOp.chunk? i)

/-- A call that the lifetime of a slot allows: it does not free the slot, and what it writes to it has from one
byte to one step, with memory to be had. -/
def CacheOp.WithinUse (i : Fin fifoNum) : CacheOp → Prop
  | .alloc _ => True
  | .write idx buf env =>
      idx = some i → 1 ≤ buf.length ∧ buf.length ≤ cacheStep ∧ env.malloc ≠ none
  | .free idx => idx ≠ some i

open Kfifo KfifoTable

theorem acceptedBy_append (i : Fin fifoNum) (as bs : List (Fin fifoNum × List UInt8)) :
    acceptedBy i (as ++ bs) = acceptedBy i as ++ acceptedBy i bs := by
  rw [acceptedBy, List.filter_append, List.flatMap_append, acceptedBy, acceptedBy]

theorem acceptedBy_self (i : Fin fifoNum) (bytes : List UInt8) : acceptedBy i [(i, bytes)] = bytes := by
  simp [acceptedBy]

theorem acceptedBy_of_ne {i j : Fin fifoNum} (h : i ≠ j) (bytes : List UInt8) :
    acceptedBy i [(j, bytes)] = [] := by
  simp [acceptedBy, h.symm]

/-! ## One call, then every run -/

/-- A write to a slot in use keeps the whole chunk or nothing of it. -/
theorem write_whole {f : Kfifo} (hf : f.Valid) {buf : List UInt8} {env : WriteEnv}
    (hsize : buf.length ≤ cacheStep) (hmalloc : env.malloc ≠ none) :
    ∃ kept : List (List UInt8), kept.Sublist [buf] ∧
      (f.kfifoWrite buf env).sent ++ (f.kfifoWrite buf env).fifo.pending = f.pending ++ kept.flatten := by
  by_cases href : f.Refused buf env
  · -- refused before anything was sent or cached
    refine ⟨[], List.nil_sublist _, ?_⟩
    rw [kfifoWrite_refused href, List.nil_append, List.flatten_nil, List.append_nil]
  · have hkeep := (kfifoWrite_spec hf buf env).2 href
    rcases kfifoWrite_dropped hf hsize hmalloc with hzero | hall
    · refine ⟨[buf], List.Sublist.refl _, ?_⟩
      rw [hkeep, hzero, Nat.sub_zero, List.take_length, List.flatten_singleton]
    · refine ⟨[], List.nil_sublist _, ?_⟩
      rw [hkeep, hall, Nat.sub_self, List.take_zero, List.flatten_nil]

/-- One call within the use of a slot. -/
theorem call_within {t : KfifoTable} (ht : t.Valid) {i : Fin fifoNum} (hi : (t i).fd ≠ -1) {op : CacheOp}
    (hop : op.WithinUse i) :
    ((t.call op).1 i).fd ≠ -1 ∧ ∃ kept : List (List UInt8), kept.Sublist (op.chunk? i).toList ∧
      acceptedBy i (t.call op).2 ++ ((t.call op).1 i).pending = (t i).pending ++ kept.flatten := by
  -- calls that leave the slot alone
  have hframe : ∀ (r : KfifoTable × List (Fin fifoNum × List UInt8)), r.1 i = t i →
      acceptedBy i r.2 = [] → (r.1 i).fd ≠ -1 ∧ ∃ kept : List (List UInt8), kept.Sublist (op.chunk? i).toList ∧
        acceptedBy i r.2 ++ (r.1 i).pending = (t i).pending ++ kept.flatten := by
    intro r hsame hnone
    rw [hsame, hnone]
    exact ⟨hi, [], List.nil_sublist _, by rw [List.flatten_nil, List.append_nil, List.nil_append]⟩
  cases op with
  | alloc fd => exact hframe _ (kfifoAlloc_of_used hi fd) rfl
  | free idx => exact hframe _ (kfifoFree_of_ne hop) rfl
  | write idx buf env =>
      cases idx with
      | none => exact hframe _ rfl rfl
      | some j =>
          by_cases hij : i = j
          · subst hij
            obtain ⟨-, hsize, hmalloc⟩ := hop rfl
            obtain ⟨kept, hsub, hkeep⟩ := write_whole (ht i) hsize hmalloc
            simp only [call, write_self, acceptedBy_self, kfifoWrite_fd]
            refine ⟨hi, kept, ?_, hkeep⟩
            rwa [CacheOp.chunk?, if_pos rfl]
          · exact hframe _ (write_of_ne hij buf env) (acceptedBy_of_ne hij _)

/-- Every run within the use of a slot. -/
theorem runSteps_call_within {t : KfifoTable} (ht : t.Valid) {i : Fin fifoNum} (hi : (t i).fd ≠ -1)
    (ops : List CacheOp) (hops : ∀ op ∈ ops, op.WithinUse i) :
    ∃ kept : List (List UInt8), kept.Sublist (chunksFor i ops) ∧
      acceptedBy i (runSteps call t ops).2 ++ ((runSteps call t ops).1 i).pending
        = (t i).pending ++ kept.flatten := by
  -- Induction on the calls: what the first call leaves cached is what the next one starts from.
  induction ops generalizing t with
  | nil => exact ⟨[], List.nil_sublist _, by rw [List.flatten_nil, List.append_nil]; rfl⟩
  | cons op ops ih =>
      obtain ⟨hused, kept, hsub, hkeep⟩ := call_within ht hi (hops op List.mem_cons_self)
      obtain ⟨kept', hsub', hkeep'⟩ := ih (call_valid t op ht) hused
        fun o ho => hops o (List.mem_cons_of_mem op ho)
      refine ⟨kept ++ kept', ?_, ?_⟩
      · have hchunks : chunksFor i (op :: ops) = (op.chunk? i).toList ++ chunksFor i ops := by
          rw [chunksFor, List.filterMap_cons]
          cases op.chunk? i <;> rfl
        rw [hchunks]
        exact hsub.append hsub'
      · rw [runSteps_cons, prepend_fst, prepend_snd, acceptedBy_append, List.append_assoc, hkeep',
          ← List.append_assoc, hkeep, List.append_assoc, List.flatten_append]

/-- `kfifo_alloc` returns a slot that is in use from then on and holds nothing. -/
theorem kfifoAlloc_spec {t : KfifoTable} {fd : Int} {i : Fin fifoNum}
    (h : (t.kfifoAlloc fd).2 = some i) :
    ((t.kfifoAlloc fd).1 i).fd ≠ -1 ∧ ((t.kfifoAlloc fd).1 i).pending = [] := by
  unfold kfifoAlloc at h ⊢
  split_ifs at h ⊢ with hfd
  cases hfind : t.find (-1) with
  | none => simp only [hfind, reduceCtorEq] at h
  | some j =>
      simp only [hfind, Option.some.injEq] at h
      subst h
      simp only [Function.update_self]
      exact ⟨hfd, pending_eq_nil rfl⟩

/-- **Stream integrity of the write cache.** From the `kfifo_alloc` of a slot on, in any state of the table
that calls can lead to, and through any further calls that do not free the slot: what its descriptor has
accepted followed by what is cached is the concatenation of a subsequence of the chunks given to the slot,
and the offsets are in bounds. -/
theorem kfifo_stream_integrity (before : List CacheOp) (fd : Int) (i : Fin fifoNum)
    (halloc : ((runSteps call kfifoTable before).1.kfifoAlloc fd).2 = some i) (ops : List CacheOp)
    (hops : ∀ op ∈ ops, op.WithinUse i) :
    let r := runSteps call ((runSteps call kfifoTable before).1.kfifoAlloc fd).1 ops
    (∃ kept : List (List UInt8), kept.Sublist (chunksFor i ops) ∧
      acceptedBy i r.2 ++ (r.1 i).pending = kept.flatten) ∧
    (r.1 i).outPos ≤ (r.1 i).inPos ∧ (r.1 i).inPos ≤ (r.1 i).size ∧ (r.1 i).size ≤ cacheSize ∧
    ((r.1 i).outPos = (r.1 i).inPos → (r.1 i).outPos = 0 ∧ (r.1 i).inPos = 0) := by
  intro r
  have hbefore : (runSteps call kfifoTable before).1.Valid :=
    runSteps_invariant call call_valid kfifoTable before kfifoTable_valid
  have hstart := kfifoAlloc_valid hbefore fd
  obtain ⟨hused, hempty⟩ := kfifoAlloc_spec halloc
  have hend : r.1.Valid := runSteps_invariant call call_valid _ ops hstart
  refine ⟨?_, (hend i).out_le_in, (hend i).in_le_size, (hend i).size_le, ?_⟩
  · obtain ⟨kept, hsub, hkeep⟩ := runSteps_call_within hstart hused ops hops
    refine ⟨kept, hsub, ?_⟩
    rw [hkeep, hempty, List.nil_append]
  · intro h
    exact ⟨h.trans ((hend i).empty h), (hend i).empty h⟩

/-- Two chunks behind a descriptor that accepts one byte directly and nothing from the cache. -/
theorem kfifo_stream_integrity_partial_write :
    let env : WriteEnv := ⟨⟨1, 11⟩, some fun _ => 0, ⟨0, 11⟩⟩
    let ops : List CacheOp := [.write (some 0) [1, 2, 3] env, .write (some 0) [4, 5] env]
    let r := runSteps call (kfifoTable.kfifoAlloc 7).1 ops
    ∃ kept : List (List UInt8), kept.Sublist (chunksFor 0 ops) ∧
      acceptedBy 0 r.2 ++ (r.1 0).pending = kept.flatten := by
  intro env ops r
  refine (kfifo_stream_integrity [] 7 0 (by decide) ops ?_).1
  intro op hop
  rcases List.mem_pair.mp hop with rfl | rfl
  · exact fun _ => ⟨by decide, by decide, Option.some_ne_none _⟩
  · exact fun _ => ⟨by decide, by decide, Option.some_ne_none _⟩

end QLog
