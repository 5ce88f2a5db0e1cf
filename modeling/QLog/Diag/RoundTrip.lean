import QLog.Diag.Deframer

/-! # Unstuffing undoes stuffing, and resynchronisation

A stuffed payload extends the open frame by the payload (`decodes_stuff`), whatever mixture of plain and
escaped bytes it is; the delimiter behind it delivers the frame. From there the two framings follow by
induction on the list of payloads, and two delimiters reach a clean decoder from every state. -/

namespace QLog

open Library

namespace DiagPkt

/-- The decoder with content added to the open frame. -/
def extend (p : DiagPkt) (payload : List UInt8) : DiagPkt := { p with buf := p.buf ++ payload }

/-- Between frames, with no escape pending. -/
def Clean (p : DiagPkt) : Prop := p.buf = [] ∧ p.last7d = false

/-- A byte that meets a decoder in order: no escape outside a frame, and no error counted so far. -/
def Calm (errors : UInt32) (p : DiagPkt) (b : UInt8) : Prop := EscapeInside p b ∧ p.errors = errors

@[simp] theorem extend_nil (p : DiagPkt) : p.extend [] = p := by
  simp [extend]

theorem extend_put (p : DiagPkt) (b : UInt8) (payload : List UInt8) :
    (p.put b).extend payload = p.extend (b :: payload) := by
  simp [extend, put]

/-- A frame is open: content may be stored. -/
def Open (p : DiagPkt) : Prop := p.last7d = false ∧ (p.start7e = false ∨ p.buf ≠ [])

theorem Open.put {p : DiagPkt} (hp : p.Open) (b : UInt8) : (p.put b).Open :=
  ⟨hp.1, Or.inr (by simp [DiagPkt.put])⟩

theorem Open.stores {p : DiagPkt} (hp : p.Open) : p.start7e = false ∨ p.pktLen ≠ 0 :=
  hp.2.imp_right fun h => mt List.length_eq_zero_iff.mp h

theorem Open.not_idle {p : DiagPkt} (hp : p.Open) : ¬ p.Idle := by
  intro hidle
  obtain h | h := hp.2
  · rw [hidle.1] at h
    exact absurd h (by decide)
  · exact h hidle.2.1

end DiagPkt

open DiagPkt

/-! ## Content -/

/-- One byte, with no error counted before it. -/
theorem decodes_byte (p : DiagPkt) (b : UInt8) (h : EscapeInside p b) :
    Decodes (Calm p.errors) p [b] (p.byte b).1 (packets (p.byte b).2) :=
  Decodes.byte ⟨h, rfl⟩

/-- A plain byte of an open frame with room for it. -/
theorem decodes_plain {p : DiagPkt} {b : UInt8} (hp : p.Open) (hroom : p.pktLen < p.maxPktLen)
    (hd : b ≠ 0x7D) (he : b ≠ 0x7E) : Decodes (Calm p.errors) p [b] (p.put b) [] := by
  have hstep : p.byte b = (p.put b).seen (some ⟨p.pktLen, false⟩) none := by
    have hnoise : ¬ (p.start7e = true ∧ p.pktLen = 0) := by
      intro h
      obtain h' | h' := hp.stores
      · rw [h.1] at h'
        exact absurd h' (by decide)
      · exact h' h.2
    have hlong : ¬ (p.put b).maxPktLen < (p.put b).pktLen := by
      rw [pktLen_put]
      exact Nat.not_lt.mpr hroom
    rw [byte_plain hp.1 hd he, plain, if_neg hnoise]
    simp only [if_neg hlong]
  have h := decodes_byte p b fun hx => hp.not_idle hx.1
  rwa [hstep] at h

/-- An escape pair of an open frame. -/
theorem decodes_escape_pair {p : DiagPkt} (d : UInt8) (hp : p.Open) :
    Decodes (Calm p.errors) p [0x7D, d] (p.put (d ^^^ 0x20)) [] := by
  have hpair : p.escaped d = (p.put (d ^^^ 0x20)).seen (some ⟨p.pktLen, true⟩) none := by
    rw [escaped, if_pos hp.stores]
  refine ⟨?_, ?_, ?_⟩
  · rw [run_escape_pair d hp.1, hpair]
    rfl
  · rw [run_escape_pair d hp.1, hpair]
    rfl
  · refine ⟨⟨fun hx => hp.not_idle hx.1, rfl⟩, ⟨?_, ?_⟩, trivial⟩
    · rw [byte_escape hp.1]
      exact fun hx => Bool.noConfusion hx.1.2.2
    · rw [byte_escape hp.1]
      rfl

/-- **A stuffed payload extends the open frame by the payload**, if the frame stays within
`max_pkt_len`. -/
theorem decodes_stuff {p : DiagPkt} (payload : List UInt8) (hp : p.Open)
    (hroom : p.pktLen + payload.length ≤ p.maxPktLen) :
    Decodes (Calm p.errors) p (stuff payload) (p.extend payload) [] := by
  -- Induction on the payload, for every open frame: each byte of it extends the frame by one byte,
  -- whether it is sent as it is or as an escape pair.
  induction payload generalizing p with
  | nil =>
      rw [extend_nil]
      exact Decodes.nil p
  | cons b payload ih =>
      rw [List.length_cons] at hroom
      have htail : Decodes (Calm p.errors) (p.put b) (stuff payload) (p.extend (b :: payload)) [] := by
        rw [← extend_put]
        exact ih (hp.put b) (by rw [pktLen_put]; exact Nat.le_trans (by omega) hroom)
      cases hb : diagCode.reserved b with
      | false =>
          rw [stuff, diagCode.stuff_cons_plain payload hb]
          have hb' : ¬ (b = 0x7E ∨ b = 0x7D) := by
            intro h
            rw [show diagCode.reserved b = (b == 0x7E || b == 0x7D) from rfl] at hb
            obtain rfl | rfl := h <;> exact absurd hb (by decide)
          rw [not_or] at hb'
          exact (decodes_plain hp (by omega) hb'.2 hb'.1).append htail
      | true =>
          rw [stuff, diagCode.stuff_cons_reserved payload hb]
          have hpair := decodes_escape_pair (diagCode.mask b) hp
          rw [show diagCode.mask b ^^^ 0x20 = b from diagCode.mask_mask b] at hpair
          exact hpair.append htail

/-! ## Frames -/

/-- The delimiter behind a frame that is long enough delivers it. -/
theorem decodes_delimiter {p : DiagPkt} (hp : p.last7d = false) (hlen : p.minPktLen ≤ p.pktLen + 1) :
    Decodes (Calm p.errors) p [0x7E] { p with buf := [] } [p.buf ++ [0x7E]] := by
  have hlen' : (p.put 0x7E).minPktLen ≤ (p.put 0x7E).pktLen := by
    rw [pktLen_put]
    exact hlen
  have hstep : p.byte 0x7E
      = ((p.put 0x7E).setPktLen 0).seen (some ⟨p.pktLen, false⟩) (some (p.buf ++ [0x7E])) := by
    rw [byte_delimiter hp, delimiter]
    simp only [if_pos hlen']
    rfl
  have h := decodes_byte p 0x7E fun hx => absurd hx.2 (by decide)
  rwa [hstep] at h

/-- One frame without a leading delimiter, from a clean decoder. -/
theorem decodes_frame {p : DiagPkt} (payload : List UInt8) (hp : p.Clean) (hmode : p.start7e = false)
    (hmin : p.minPktLen ≤ payload.length + 1) (hmax : payload.length ≤ p.maxPktLen) :
    Decodes (Calm p.errors) p (stuff payload ++ [0x7E]) p [payload ++ [0x7E]] := by
  have hlen : p.pktLen = 0 := by rw [pktLen, hp.1, List.length_nil]
  have hbody := decodes_stuff payload ⟨hp.2, Or.inl hmode⟩ (by rw [hlen]; omega)
  have hend := decodes_delimiter (p := p.extend payload) hp.2
    (by simpa [extend, pktLen, hp.1] using hmin)
  have hbuf : (p.extend payload).buf = payload := by rw [extend, hp.1, List.nil_append]
  have hback : { p.extend payload with buf := [] } = p := by
    rw [extend, ← hp.1]
  rw [hbuf, hback] at hend
  exact hbody.append hend

/-- The leading delimiter is too short to be a frame of its own, and opens one. -/
theorem decodes_start {p : DiagPkt} (hp : p.Clean) (hmode : p.start7e = true) (hopen : 1 < p.minPktLen) :
    Decodes (Calm p.errors) p [0x7E] (p.put 0x7E) [] := by
  have hlen : p.pktLen = 0 := by rw [pktLen, hp.1, List.length_nil]
  have hshort : ¬ (p.put 0x7E).minPktLen ≤ (p.put 0x7E).pktLen := by
    rw [pktLen_put, hlen]
    exact Nat.not_le.mpr hopen
  have hfirst : (p.put 0x7E).start7e = true ∧ (p.put 0x7E).pktLen = 1 :=
    ⟨hmode, by rw [pktLen_put, hlen]⟩
  have hstep : p.byte 0x7E = (p.put 0x7E).seen (some ⟨p.pktLen, false⟩) none := by
    rw [byte_delimiter hp.2, delimiter]
    simp only [if_neg hshort, if_pos hfirst]
  have h := decodes_byte p 0x7E fun hx => absurd hx.2 (by decide)
  rwa [hstep] at h

/-- One frame with a leading delimiter, from a clean decoder of the mode `start_7e`. -/
theorem decodes_delimited_frame {p : DiagPkt} (payload : List UInt8) (hp : p.Clean)
    (hmode : p.start7e = true) (hopen : 1 < p.minPktLen) (hmin : p.minPktLen ≤ payload.length + 2)
    (hmax : payload.length + 1 ≤ p.maxPktLen) :
    Decodes (Calm p.errors) p ([0x7E] ++ stuff payload ++ [0x7E]) p
      [[0x7E] ++ payload ++ [0x7E]] := by
  have hlen : p.pktLen = 0 := by rw [pktLen, hp.1, List.length_nil]
  have hstart := decodes_start hp hmode hopen
  have hput : (p.put 0x7E).buf = [0x7E] := by rw [put, hp.1, List.nil_append]
  have hbody := decodes_stuff (p := p.put 0x7E) payload ⟨hp.2, Or.inr (by simp [hput])⟩
    (by rw [pktLen_put, hlen]; exact Nat.le_trans (by omega) hmax)
  have hbuf : ((p.put 0x7E).extend payload).buf = [0x7E] ++ payload := by rw [extend, hput]
  have hend := decodes_delimiter (p := (p.put 0x7E).extend payload) hp.2
    (by rw [pktLen, hbuf]; exact Nat.le_trans hmin (by simp))
  have hback : { (p.put 0x7E).extend payload with buf := [] } = p := by
    rw [extend, put, ← hp.1]
  rw [hbuf, hback] at hend
  have h := (hstart.append hbody).append hend
  simpa using h

/-- Frames read one after another, each from the same clean decoder. -/
theorem decodes_flatMap {cond : DiagPkt → UInt8 → Prop} {p : DiagPkt} {ok : List UInt8 → Prop}
    {wire packet : List UInt8 → List UInt8}
    (hframe : ∀ payload, ok payload → Decodes cond p (wire payload) p [packet payload])
    (payloads : List (List UInt8)) (hok : ∀ payload ∈ payloads, ok payload) :
    Decodes cond p (payloads.flatMap wire) p (payloads.map packet) := by
  induction payloads with
  | nil => exact Decodes.nil p
  | cons payload payloads ih =>
      rw [List.flatMap_cons, List.map_cons]
      exact (hframe payload (hok payload List.mem_cons_self)).append
        (ih fun x hx => hok x (List.mem_cons_of_mem payload hx))

/-- Any chunking of a calm stream ends like the stream itself, and no error is counted on the way. -/
theorem Decodes.feed_calm {errors : UInt32} {p q : DiagPkt} {chunks : List (List UInt8)}
    {out : List (List UInt8)} (h : Decodes (Calm errors) p chunks.flatten q out)
    (hq : q.errors = errors) (hne : ∀ c ∈ chunks, c ≠ []) :
    feed p chunks = (q, out) ∧ ∀ cs, cs <+: chunks → (feed p cs).1.errors = errors := by
  refine ⟨(h.mono fun _ _ hx => hx.1).feed_eq hne, ?_⟩
  rintro cs ⟨ds, rfl⟩
  have hcs : ∀ c ∈ cs, c ≠ [] := fun c hc => hne c (List.mem_append_left ds hc)
  have hds : ∀ c ∈ ds, c ≠ [] := fun c hc => hne c (List.mem_append_right cs hc)
  have halong := h.along
  have hstate := h.state
  rw [List.flatten_append, along_append] at halong
  rw [List.flatten_append, runSteps_append, prepend_fst] at hstate
  have hfeed : (feed p cs).1 = (runSteps DiagPkt.byte p cs.flatten).1 := by
    rw [feed, runSteps_diagPktInput p cs hcs
      (noIdleEscape_of_along p _ (along_mono DiagPkt.byte (fun _ _ hx => hx.1) p _ halong.1))]
  rw [hfeed]
  rcases ds with _ | ⟨d, ds⟩
  · -- all chunks are read: the end of the stream
    rw [← hq, ← hstate]
    rfl
  · -- the next byte to come meets the condition
    rcases d with _ | ⟨b, d⟩
    · exact absurd rfl (hds [] List.mem_cons_self)
    · exact halong.2.1.2

/-! ## The two configurations -/

theorem mdmDiagPkt_clean : mdmDiagPkt.Clean := ⟨rfl, rfl⟩

theorem unisocDiagPkt_clean : unisocDiagPkt.Clean := ⟨rfl, rfl⟩

/-- A payload the Qualcomm configuration can deliver: with the delimiter it reaches the minimum, and it
fits below the maximum. -/
def MdmPayload (payload : List UInt8) : Prop :=
  3 ≤ payload.length ∧ payload.length ≤ mdmDiagPkt.maxPktLen

/-- A payload the Unisoc configuration can deliver between its two delimiters. -/
def UnisocPayload (payload : List UInt8) : Prop :=
  8 ≤ payload.length ∧ payload.length ≤ unisocDiagPkt.maxPktLen - 1

instance (payload : List UInt8) : Decidable (MdmPayload payload) :=
  inferInstanceAs (Decidable (_ ∧ _))

instance (payload : List UInt8) : Decidable (UnisocPayload payload) :=
  inferInstanceAs (Decidable (_ ∧ _))

/-- A frame of the Qualcomm stream. -/
def mdmFrame (payload : List UInt8) : List UInt8 := stuff payload ++ [0x7E]

/-- A frame of the Unisoc stream. -/
def unisocFrame (payload : List UInt8) : List UInt8 := [0x7E] ++ stuff payload ++ [0x7E]

/-- The frames of a list of payloads, from any clean decoder of the Qualcomm configuration. -/
theorem decodes_mdmFrames {p : DiagPkt} (hp : p.Clean) (hcfg : SameConfig mdmDiagPkt p)
    (payloads : List (List UInt8)) (hok : ∀ payload ∈ payloads, MdmPayload payload) :
    Decodes (Calm p.errors) p (payloads.flatMap mdmFrame) p (payloads.map (· ++ [0x7E])) := by
  have hframe : ∀ payload, MdmPayload payload →
      Decodes (Calm p.errors) p (mdmFrame payload) p [payload ++ [0x7E]] := by
    intro payload hpay
    refine decodes_frame payload hp hcfg.start7e ?_ ?_
    · rw [hcfg.minPktLen]
      exact Nat.succ_le_succ hpay.1
    · rw [hcfg.maxPktLen]
      exact hpay.2
  exact decodes_flatMap hframe payloads hok

/-- The frames of a list of payloads, from a clean decoder of the Unisoc configuration. -/
theorem decodes_unisocFrames {p : DiagPkt} (hp : p.Clean) (hcfg : SameConfig unisocDiagPkt p)
    (payloads : List (List UInt8)) (hok : ∀ payload ∈ payloads, UnisocPayload payload) :
    Decodes (Calm p.errors) p (payloads.flatMap unisocFrame) p
      (payloads.map fun payload => [0x7E] ++ payload ++ [0x7E]) := by
  have hframe : ∀ payload, UnisocPayload payload →
      Decodes (Calm p.errors) p (unisocFrame payload) p [[0x7E] ++ payload ++ [0x7E]] := by
    intro payload hpay
    refine decodes_delimited_frame payload hp hcfg.start7e ?_ ?_ ?_
    · rw [hcfg.minPktLen]
      decide
    · rw [hcfg.minPktLen]
      exact Nat.add_le_add_right hpay.1 2
    · rw [hcfg.maxPktLen]
      exact Nat.le_trans (Nat.succ_le_succ hpay.2) (by decide)
  exact decodes_flatMap hframe payloads hok

/-- **Unstuffing undoes stuffing under every segmentation**, in both configurations: each payload comes out
once, in order, framed as its handler expects it, no error is counted, and the decoder ends as it began. -/
theorem diagPktInput_undoes_stuff :
    (∀ payloads chunks : List (List UInt8), (∀ payload ∈ payloads, MdmPayload payload) →
      (∀ c ∈ chunks, c ≠ []) → chunks.flatten = payloads.flatMap mdmFrame →
      feed mdmDiagPkt chunks = (mdmDiagPkt, payloads.map (· ++ [0x7E])) ∧
        ∀ cs, cs <+: chunks → (feed mdmDiagPkt cs).1.errors = 0) ∧
    (∀ payloads chunks : List (List UInt8), (∀ payload ∈ payloads, UnisocPayload payload) →
      (∀ c ∈ chunks, c ≠ []) → chunks.flatten = payloads.flatMap unisocFrame →
      feed unisocDiagPkt chunks
          = (unisocDiagPkt, payloads.map fun payload => [0x7E] ++ payload ++ [0x7E]) ∧
        ∀ cs, cs <+: chunks → (feed unisocDiagPkt cs).1.errors = 0) := by
  constructor
  · intro payloads chunks hok hne hstream
    have h := decodes_mdmFrames mdmDiagPkt_clean ⟨rfl, rfl, rfl⟩ payloads hok
    rw [← hstream] at h
    exact h.feed_calm rfl hne
  · intro payloads chunks hok hne hstream
    have h := decodes_unisocFrames unisocDiagPkt_clean ⟨rfl, rfl, rfl⟩ payloads hok
    rw [← hstream] at h
    exact h.feed_calm rfl hne

/-- Chunks that cut an escape in two, in both configurations. -/
theorem diagPktInput_undoes_stuff_cut_escape :
    feed mdmDiagPkt [[0x01, 0x7D], [0x5D, 0x7D, 0x5E, 0x7E]]
        = (mdmDiagPkt, [[0x01, 0x7D, 0x7E, 0x7E]]) ∧
      feed unisocDiagPkt [[0x7E, 1, 2, 3, 4, 5, 6, 7, 0x7D], [0x5E], [0x7E]]
        = (unisocDiagPkt, [[0x7E, 1, 2, 3, 4, 5, 6, 7, 0x7E, 0x7E]]) :=
  ⟨(diagPktInput_undoes_stuff.1 [[0x01, 0x7D, 0x7E]] _ (by decide) (by decide) (by decide)).1,
    (diagPktInput_undoes_stuff.2 [[1, 2, 3, 4, 5, 6, 7, 0x7E]] _ (by decide) (by decide)
      (by decide)).1⟩

/-! ## Resynchronisation -/

/-- Without a leading delimiter, the delimiter always empties the buffer. -/
theorem delimiter_buf_of_start7e_false {p : DiagPkt} (hp : p.start7e = false) :
    p.delimiter.1.buf = [] := by
  have hmode : (p.put 0x7E).start7e ≠ true := by
    rw [show (p.put 0x7E).start7e = p.start7e from rfl, hp]
    decide
  unfold delimiter
  dsimp only
  split_ifs with h1 h2 h3
  · rfl
  · exact absurd h2.1 hmode
  · exact absurd h3.1 hmode
  · rfl

/-- **Two delimiters clean every decoder** of the mode without a leading delimiter: an open escape swallows
the first one, and then the second ends whatever was begun. -/
theorem run_two_delimiters_clean {p : DiagPkt} (hp : p.start7e = false) :
    (runSteps byte p [0x7E, 0x7E]).1.Clean := by
  have hmode := (byte_sameConfig p 0x7E).start7e.trans hp
  have hpending : (p.byte 0x7E).1.last7d = false := by
    cases hlast : p.last7d with
    | true => rw [byte_behind_escape _ hlast, escaped_last7d]
    | false => rw [byte_delimiter hlast, delimiter_last7d, hlast]
  -- so the second delimiter is read as one
  rw [runSteps_cons, runSteps_singleton, prepend_fst, byte_delimiter hpending]
  exact ⟨delimiter_buf_of_start7e_false hmode, by rw [delimiter_last7d, hpending]⟩

/-- **Resynchronisation.** Behind any garbage and two delimiters the Qualcomm configuration delivers exactly
the payloads that follow, in order, whatever the chunking; what it delivered before depends on the garbage
alone. -/
theorem diagPktInput_resync (garbage : List UInt8) (payloads chunks : List (List UInt8))
    (hok : ∀ payload ∈ payloads, MdmPayload payload) (hne : ∀ c ∈ chunks, c ≠ [])
    (hstream : chunks.flatten = garbage ++ [0x7E, 0x7E] ++ payloads.flatMap mdmFrame) :
    (feed mdmDiagPkt chunks).2
      = (feed mdmDiagPkt [garbage ++ [0x7E, 0x7E]]).2 ++ payloads.map (· ++ [0x7E]) := by
  set noise := garbage ++ [0x7E, 0x7E] with hnoise
  have hread := Decodes.of_start7e_false mdmDiagPkt noise rfl
  have hclean : (runSteps byte mdmDiagPkt noise).1.Clean := by
    rw [hnoise, runSteps_append, prepend_fst]
    exact run_two_delimiters_clean (run_sameConfig mdmDiagPkt garbage).start7e
  have hframes := decodes_mdmFrames hclean (run_sameConfig mdmDiagPkt noise) payloads hok
  have hall := hread.append (hframes.mono fun _ _ hx => hx.1)
  rw [← hstream] at hall
  have hone : feed mdmDiagPkt [noise] = _ :=
    Decodes.feed_eq (by simpa using hread) (by simp [hnoise])
  rw [hall.feed_eq hne, hone]

/-- Garbage that ends behind an escape: the first delimiter is swallowed, the second one counts. -/
theorem diagPktInput_resync_open_escape :
    (feed mdmDiagPkt [[0x01, 0x7D, 0x7E], [0x7E, 0x02], [0x03, 0x04, 0x7E]]).2
      = (feed mdmDiagPkt [[0x01, 0x7D] ++ [0x7E, 0x7E]]).2 ++ [[0x02, 0x03, 0x04]].map (· ++ [0x7E]) :=
  diagPktInput_resync [0x01, 0x7D] [[0x02, 0x03, 0x04]] _ (by decide) (by decide) (by decide)

end QLog
