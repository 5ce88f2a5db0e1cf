import QLog.Diag.Deframer

/-! # When the deframer does not depend on the chunking

Both escape paths of `diag_pkt_input` treat the escaped byte alike, except for one: inside the loop, outside
a frame of the mode `start_7e`, `pSrc` stays on the escaped byte while `i` passes it. The byte is then
read a second time, and the last byte of the chunk is never read. Where no such pair is met the chunking
does not matter; and in the mode `start_7e` every decoder can be brought to a place where it does. -/

namespace QLog

open Library

/-- However the stream is cut into chunks, the deframer ends in the same state and delivers the same packets
as when it is fed in one call. -/
def ChunkInvariant (p : DiagPkt) (s : List UInt8) : Prop :=
  ∀ chunks : List (List UInt8), (∀ c ∈ chunks, c ≠ []) → chunks.flatten = s →
    feed p chunks = feed p [s]

/-- Streams without an escape pair outside a frame can be cut anywhere. -/
theorem chunkInvariant_of_noIdleEscape (p : DiagPkt) (s : List UInt8) (hok : NoIdleEscape p s) :
    ChunkInvariant p s := by
  intro chunks hne hflat
  subst hflat
  have hone : runSteps diagPktInput p [chunks.flatten] = runSteps DiagPkt.byte p chunks.flatten := by
    rw [runSteps_singleton, diagPktInput_eq_run p _ hok]
  rw [feed, feed, runSteps_diagPktInput p chunks hne hok, hone]

/-- Chunks of one byte each are the byte decoder, in every state. -/
theorem runSteps_diagPktInput_singletons (p : DiagPkt) (s : List UInt8) :
    runSteps diagPktInput p (s.map ([·])) = runSteps DiagPkt.byte p s := by
  induction s generalizing p with
  | nil => rfl
  | cons b s ih =>
      have hone : diagPktInput p [b] = p.byte b := by
        rw [diagPktInput_eq_run p [b] ⟨fun h => h.2.2 rfl, trivial⟩, runSteps_singleton]
      rw [List.map_cons, runSteps_cons, hone, ih, runSteps_cons]

/-- Chunks of one byte each make up the stream. -/
theorem flatten_singletons (s : List UInt8) : (s.map ([·])).flatten = s := by
  rw [← List.flatMap_def, List.flatMap_singleton']

theorem ne_nil_of_mem_singletons {s c : List UInt8} (hc : c ∈ s.map ([·])) : c ≠ [] := by
  obtain ⟨b, -, rfl⟩ := List.mem_map.mp hc
  exact List.cons_ne_nil b []

namespace DiagPkt

/-- The delimiter behind two bytes or more ends the frame. -/
theorem delimiter_buf_of_two_le {p : DiagPkt} (hp : 2 ≤ p.pktLen) : p.delimiter.1.buf = [] := by
  unfold delimiter
  dsimp only
  rw [pktLen_put]
  split_ifs with h1 h2 h3
  · rfl
  · omega
  · omega
  · rfl

/-- From every decoder of the mode `start_7e` some bytes lead outside the frame. -/
theorem exists_run_idle (p : DiagPkt) (hp : p.start7e = true) :
    ∃ u, (runSteps byte p u).1.Idle := by
  -- without a pending escape: a content byte and a delimiter end the open frame
  have hclear : ∀ q : DiagPkt, q.start7e = true → q.last7d = false →
      ∃ u, (runSteps byte q u).1.Idle := by
    intro q hmode hlast
    by_cases hbuf : q.buf = []
    · exact ⟨[], hmode, hbuf, hlast⟩
    have hlen : q.pktLen ≠ 0 := mt List.length_eq_zero_iff.mp hbuf
    have hnoise : ¬ (q.start7e = true ∧ q.pktLen = 0) := fun h => hlen h.2
    have hplain : q.byte 0 = q.plain 0 := byte_plain hlast (by decide) (by decide)
    by_cases hlong : (q.put 0).maxPktLen < (q.put 0).pktLen
    · -- the content byte is one too many, and the frame is thrown away
      refine ⟨[0], ?_⟩
      rw [runSteps_singleton, hplain, plain, if_neg hnoise]
      simp only [if_pos hlong]
      exact ⟨hmode, rfl, hlast⟩
    · refine ⟨[0, 0x7E], ?_⟩
      have hstep : (q.byte 0).1 = q.put 0 := by
        rw [hplain, plain, if_neg hnoise]
        simp only [if_neg hlong]
        rfl
      rw [runSteps_cons, runSteps_singleton, prepend_fst, hstep, byte_delimiter (p := q.put 0) hlast]
      refine ⟨(delimiter_sameConfig _).start7e.trans hmode, ?_, ?_⟩
      · exact delimiter_buf_of_two_le (by rw [pktLen_put]; omega)
      · rw [delimiter_last7d]
        exact hlast
  cases hlast : p.last7d with
  | false => exact hclear p hp hlast
  | true =>
      -- one more byte settles the pending escape
      obtain ⟨u, hu⟩ := hclear (p.byte 0).1 ((byte_sameConfig p 0).start7e.trans hp)
        (by rw [byte_behind_escape 0 hlast, escaped_last7d])
      exact ⟨0 :: u, hu⟩

/-- Outside a frame, `7D 00 7E` in one chunk counts two errors: the delimiter is not reached. -/
theorem diagPktInput_idle_escape_errors {p : DiagPkt} (hp : p.Idle) :
    (diagPktInput p [0x7D, 0x00, 0x7E]).1.errors = p.errors + 1 + 1 := by
  obtain ⟨hmode, hbuf, hlast⟩ := hp
  have hidle : ¬ (p.start7e = false ∨ p.pktLen ≠ 0) := by
    simp [hmode, pktLen, hbuf]
  have hesc : (p.escaped 0x00).1 = p.fail := by
    rw [escaped, if_neg hidle]
    rfl
  have hnoise : p.fail.start7e = true ∧ p.fail.pktLen = 0 := ⟨hmode, by simp [pktLen, fail, hbuf]⟩
  have hinput : diagPktInput p [0x7D, 0x00, 0x7E] = diagPktLoop 3 [0x7D, 0x00, 0x7E] p := by
    simp [diagPktInput, hlast]
  rw [hinput, diagPktLoop_idle_escape_pair 1 _ _ hidle, prepend_fst, hesc,
    diagPktLoop_plain 0 _ _ (by decide) (by decide), prepend_fst, plain, if_pos hnoise]
  rfl

/-- Outside a frame, `7D 00 7E` byte by byte counts one error and reaches the delimiter. -/
theorem run_idle_escape_errors {p : DiagPkt} (hp : p.Idle) :
    (runSteps byte p [0x7D, 0x00, 0x7E]).1.errors = p.errors + 1 := by
  obtain ⟨hmode, hbuf, hlast⟩ := hp
  have hidle : ¬ (p.start7e = false ∨ p.pktLen ≠ 0) := by
    simp [hmode, pktLen, hbuf]
  have hesc : (p.escaped 0x00).1 = p.fail := by
    rw [escaped, if_neg hidle]
    rfl
  have hone : (p.fail.put 0x7E).start7e = true ∧ (p.fail.put 0x7E).pktLen = 1 :=
    ⟨hmode, by rw [pktLen_put]; simp [pktLen, fail, hbuf]⟩
  rw [run_escape_pair 0x00 hlast, prepend_fst, hesc, runSteps_singleton,
    byte_delimiter (p := p.fail) hlast, delimiter]
  simp only [if_pos hone]
  split <;> rfl

end DiagPkt

/-- In the mode `start_7e` every decoder meets a stream whose chunking matters. -/
theorem exists_not_chunkInvariant (p : DiagPkt) (hp : p.start7e = true) :
    ∃ s, ¬ ChunkInvariant p s := by
  obtain ⟨u, hu⟩ := DiagPkt.exists_run_idle p hp
  refine ⟨u ++ [0x7D, 0x00, 0x7E], fun h => ?_⟩
  -- byte by byte against the last three bytes in one chunk
  have hbytes := h _ (fun _ hc => ne_nil_of_mem_singletons hc) (flatten_singletons _)
  have hchunk := h (u.map ([·]) ++ [[0x7D, 0x00, 0x7E]])
    (fun c hc => (List.mem_append.mp hc).elim ne_nil_of_mem_singletons fun hlast => by
      rw [List.mem_singleton.mp hlast]
      exact List.cons_ne_nil _ _)
    (by rw [List.flatten_append, flatten_singletons, List.flatten_singleton])
  -- the two end with different error counts
  have herr := congrArg (fun r => r.1.errors) (hbytes.trans hchunk.symm)
  simp only [feed] at herr
  rw [runSteps_diagPktInput_singletons, runSteps_append, prepend_fst, runSteps_append, prepend_fst,
    runSteps_diagPktInput_singletons, runSteps_singleton, DiagPkt.run_idle_escape_errors hu,
    DiagPkt.diagPktInput_idle_escape_errors hu] at herr
  exact absurd herr (by simp)

/-- **Chunking invariance holds exactly in the mode without a leading delimiter**; in the mode `start_7e`
it holds for every stream that shows no escape pair outside a frame. -/
theorem diagPktInput_chunkInvariant_iff (p : DiagPkt) :
    ((∀ s, ChunkInvariant p s) ↔ p.start7e = false) ∧
      ∀ s, NoIdleEscape p s → ChunkInvariant p s := by
  refine ⟨⟨fun h => ?_, fun hp s => ?_⟩, chunkInvariant_of_noIdleEscape p⟩
  · by_contra hmode
    obtain ⟨s, hs⟩ := exists_not_chunkInvariant p (by simpa using hmode)
    exact hs (h s)
  · exact chunkInvariant_of_noIdleEscape p s (noIdleEscape_of_start7e_false p s hp)

/-- A Unisoc frame with an escape inside can be cut anywhere. -/
theorem unisoc_inner_escape_chunkInvariant :
    ChunkInvariant unisocDiagPkt [0x7E, 1, 2, 3, 4, 5, 6, 7, 0x7D, 0x5E, 0x7E] :=
  (diagPktInput_chunkInvariant_iff unisocDiagPkt).2 _ (by decide)

/-- An escape pair before a Unisoc frame: in one call the closing delimiter is not reached and the packet is
lost, in two calls it is delivered. -/
theorem unisoc_idle_escape_not_chunkInvariant :
    ¬ ChunkInvariant unisocDiagPkt [0x7D, 0x41, 0x7E, 1, 2, 3, 4, 5, 6, 7, 8, 0x7E] := by
  intro h
  have hcut := h [[0x7D], [0x41, 0x7E, 1, 2, 3, 4, 5, 6, 7, 8, 0x7E]] (by decide) (by decide)
  exact absurd (congrArg (fun r => r.2.length) hcut) (by decide)

end QLog
