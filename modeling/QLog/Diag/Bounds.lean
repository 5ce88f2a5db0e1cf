import QLog.Diag.Deframer

/-! # How far the deframer writes

`diag_pkt_malloc` allocates `2 * (max_size + min_size)` bytes for the structure and its buffer, which leaves
room for far more than one frame. Of the four stores of `diag_pkt_input` only that of a plain byte is
followed by the length check, so the frame grows without limit as long as escaped bytes arrive. The bounds
hold exactly in the runs (`EscapesFit`) in which every escaped byte meets at most `max_pkt_len` bytes.

The proof goes through the records of the run: each says which store was made, and what `pkt_len` was
afterwards. -/

namespace QLog

open Library

/-- The callers of `diag_pkt_malloc`. -/
inductive DiagCaller
  | mdmInitFilter
  | unisocInitFilter
  deriving DecidableEq, Repr

namespace DiagCaller

/-- The `min_size` a caller passes. -/
def minSize : DiagCaller → Nat
  | mdmInitFilter => mdmDiagPkt.minPktLen
  | unisocInitFilter => unisocDiagPkt.minPktLen

/-- The `max_size` a caller passes. -/
def maxSize : DiagCaller → Nat
  | mdmInitFilter => mdmDiagPkt.maxPktLen
  | unisocInitFilter => unisocDiagPkt.maxPktLen

end DiagCaller

/-- The offset of `buf` in `struct diag_pkt` on a 64-bit machine: two `size_t`, three `uint32_t` and their
padding, `pkt_len`, the handler and the reserved bytes. -/
def sizeofDiagPkt : Nat := 8 + 8 + 4 + 4 + 4 + 4 + 8 + 8 + 8

/-- The room `diag_pkt_malloc` leaves for `buf`. -/
def diagPktRoom (minSize maxSize : Nat) : Nat := (maxSize + minSize) * 2 - sizeofDiagPkt

/-- What a consumed byte may do: store inside the room, and leave at most one byte more than the maximum. -/
def Consumed.InBounds (room maxLen : Nat) (c : Consumed) : Prop :=
  (∀ st ∈ c.store, st.index < room) ∧ c.pktLen ≤ maxLen + 1

/-- If the byte is stored from behind an escape, `pkt_len` is not above the maximum before the store. -/
def Consumed.EscapeFits (maxLen : Nat) (c : Consumed) : Prop :=
  ∀ st ∈ c.store, st.escaped = true → st.index ≤ maxLen

/-- A piece of a run that stays in bounds as long as the escaped bytes in it fit. -/
def StaysBounded (room maxLen : Nat) (r : DiagPkt × List Consumed) : Prop :=
  (∀ c ∈ r.2, c.EscapeFits maxLen) →
    (∀ c ∈ r.2, c.InBounds room maxLen) ∧ r.1.pktLen ≤ maxLen + 1 ∧ r.1.maxPktLen = maxLen

section Branches

variable {room maxLen : Nat} {p : DiagPkt}

/-- One consumed byte, with the decoder it leaves. -/
theorem staysBounded_seen {q : DiagPkt} {store : Option Store} {packet : Option (List UInt8)}
    (hmax : q.maxPktLen = maxLen)
    (h : (Consumed.EscapeFits maxLen ⟨store, q.pktLen, packet⟩) →
      (∀ st ∈ store, st.index < room) ∧ q.pktLen ≤ maxLen + 1) :
    StaysBounded room maxLen (q.seen store packet) := by
  intro hfits
  have hb := h (hfits _ List.mem_cons_self)
  refine ⟨?_, hb.2, hmax⟩
  intro c hc
  rw [DiagPkt.seen, List.mem_singleton] at hc
  subst hc
  exact hb

/-- Two pieces, the second from the state the first leaves. -/
theorem StaysBounded.prepend {r : DiagPkt × List Consumed} {k : DiagPkt × List Consumed}
    (hr : StaysBounded room maxLen r)
    (hk : r.1.pktLen ≤ maxLen + 1 → r.1.maxPktLen = maxLen → StaysBounded room maxLen k) :
    StaysBounded room maxLen (prepend r.2 k) := by
  intro hfits
  obtain ⟨hr1, hr2, hr3⟩ := hr fun c hc => hfits c (List.mem_append_left _ hc)
  obtain ⟨hk1, hk2, hk3⟩ := hk hr2 hr3 fun c hc => hfits c (List.mem_append_right _ hc)
  refine ⟨fun c hc => ?_, hk2, hk3⟩
  rw [prepend_snd, List.mem_append] at hc
  exact hc.elim (hr1 c) (hk1 c)

variable (hlen : p.pktLen ≤ maxLen + 1) (hmax : p.maxPktLen = maxLen)

include hlen hmax

theorem staysBounded_escape : StaysBounded room maxLen p.escape :=
  staysBounded_seen hmax fun _ => ⟨by simp, hlen⟩

theorem staysBounded_escaped (hroom : maxLen + 1 < room) (b : UInt8) :
    StaysBounded room maxLen (p.escaped b) := by
  unfold DiagPkt.escaped
  split
  · -- no check follows this store, so the bound rests on the hypothesis alone
    refine staysBounded_seen hmax fun hfits => ?_
    have hfit : p.pktLen ≤ maxLen := hfits _ rfl rfl
    refine ⟨?_, by rw [DiagPkt.pktLen_put]; omega⟩
    rintro st ⟨⟩
    exact Nat.lt_of_le_of_lt (Nat.le_succ_of_le hfit) hroom
  · exact staysBounded_seen hmax fun _ => ⟨by simp, hlen⟩

theorem staysBounded_delimiter (hroom : maxLen + 1 < room) :
    StaysBounded room maxLen p.delimiter := by
  have hstore : ∀ st ∈ some (Store.mk p.pktLen false), st.index < room := by
    rintro st ⟨⟩
    exact Nat.lt_of_le_of_lt hlen hroom
  -- the store comes first in all four branches, then `pkt_len` is set back or cut
  unfold DiagPkt.delimiter
  dsimp only
  split_ifs with h1 h2 h3
  · exact staysBounded_seen hmax fun _ => ⟨hstore, Nat.zero_le _⟩
  · exact staysBounded_seen hmax fun _ => ⟨hstore, by omega⟩
  · refine staysBounded_seen hmax fun _ => ⟨hstore, ?_⟩
    exact Nat.le_trans (List.length_take_le _ _) (by omega)
  · exact staysBounded_seen hmax fun _ => ⟨hstore, Nat.zero_le _⟩

theorem staysBounded_plain (hroom : maxLen + 1 < room) (b : UInt8) :
    StaysBounded room maxLen (p.plain b) := by
  have hstore : ∀ st ∈ some (Store.mk p.pktLen false), st.index < room := by
    rintro st ⟨⟩
    exact Nat.lt_of_le_of_lt hlen hroom
  unfold DiagPkt.plain
  dsimp only
  split_ifs with h1 h2
  · exact staysBounded_seen hmax fun _ => ⟨by simp, hlen⟩
  · exact staysBounded_seen hmax fun _ => ⟨hstore, Nat.zero_le _⟩
  · -- the check has passed
    refine staysBounded_seen hmax fun _ => ⟨hstore, ?_⟩
    rw [show (p.put b).maxPktLen = maxLen from hmax] at h2
    omega

end Branches

/-! ## The loop, the call, the run -/

variable {room maxLen : Nat}

/-- The loop stays in bounds, whether or not its two cursors are in step. -/
theorem staysBounded_loop (hroom : maxLen + 1 < room) (n : Nat) (src : List UInt8) (p : DiagPkt)
    (hlen : p.pktLen ≤ maxLen + 1) (hmax : p.maxPktLen = maxLen) :
    StaysBounded room maxLen (diagPktLoop n src p) := by
  fun_induction diagPktLoop n src p with
  | case1 | case2 => exact fun _ => ⟨by simp, hlen, hmax⟩
  | case3 => exact staysBounded_escape hlen hmax
  | case4 => exact fun _ => ⟨by simp, hlen, hmax⟩
  | case5 p m d src' r _ ih | case6 p m d src' r _ ih =>
      -- the two pair cases differ only in where `pSrc` goes on
      rw [← prepend_prepend]
      refine (staysBounded_escape hlen hmax).prepend fun _ _ => ?_
      exact (staysBounded_escaped hlen hmax hroom d).prepend ih
  | case7 n src p _ ih => exact (staysBounded_delimiter hlen hmax hroom).prepend ih
  | case8 n c src p _ _ ih => exact (staysBounded_plain hlen hmax hroom c).prepend ih

theorem staysBounded_diagPktInput (hroom : maxLen + 1 < room) (p : DiagPkt) (src : List UInt8)
    (hlen : p.pktLen ≤ maxLen + 1) (hmax : p.maxPktLen = maxLen) :
    StaysBounded room maxLen (diagPktInput p src) := by
  unfold diagPktInput
  split
  · rename_i c rest _
    have hfirst := staysBounded_escaped (p := { p with last7d := false }) hlen hmax hroom c
    exact hfirst.prepend fun hlen' hmax' => staysBounded_loop hroom _ rest _ hlen' hmax'
  · exact staysBounded_loop hroom _ _ p hlen hmax

theorem staysBounded_runSteps (hroom : maxLen + 1 < room) (p : DiagPkt) (chunks : List (List UInt8))
    (hlen : p.pktLen ≤ maxLen + 1) (hmax : p.maxPktLen = maxLen) :
    StaysBounded room maxLen (runSteps diagPktInput p chunks) := by
  induction chunks generalizing p with
  | nil => exact fun _ => ⟨by simp, hlen, hmax⟩
  | cons c chunks ih =>
      rw [runSteps_cons]
      exact (staysBounded_diagPktInput hroom p c hlen hmax).prepend fun hlen' hmax' => ih _ hlen' hmax'

/-! ## What the records say of escaped bytes -/

/-- A store from behind an escape leaves `pkt_len` one above its index. -/
def Consumed.EscapeGrows (c : Consumed) : Prop :=
  ∀ st ∈ c.store, st.escaped = true → c.pktLen = st.index + 1

/-- Nothing is stored from behind an escape. -/
def Consumed.NoEscape (c : Consumed) : Prop := ∀ st ∈ c.store, st.escaped = false

theorem Consumed.NoEscape.not_escaped {c : Consumed} (h : c.NoEscape) {st : Store} (hst : st ∈ c.store) :
    st.escaped ≠ true := by
  rw [h st hst]
  decide

theorem Consumed.NoEscape.grows {c : Consumed} (h : c.NoEscape) : c.EscapeGrows :=
  fun _ hst hesc => absurd hesc (h.not_escaped hst)

theorem Consumed.NoEscape.fits {c : Consumed} (h : c.NoEscape) (maxLen : Nat) : c.EscapeFits maxLen :=
  fun _ hst hesc => absurd hesc (h.not_escaped hst)

theorem escape_noEscape (p : DiagPkt) : ∀ c ∈ p.escape.2, c.NoEscape := by
  simp [DiagPkt.escape, DiagPkt.seen, Consumed.NoEscape]

theorem delimiter_noEscape (p : DiagPkt) : ∀ c ∈ p.delimiter.2, c.NoEscape := by
  unfold DiagPkt.delimiter
  dsimp only
  split_ifs <;> simp [DiagPkt.seen, Consumed.NoEscape]

theorem plain_noEscape (p : DiagPkt) (b : UInt8) : ∀ c ∈ (p.plain b).2, c.NoEscape := by
  unfold DiagPkt.plain
  dsimp only
  split_ifs <;> simp [DiagPkt.seen, Consumed.NoEscape]

theorem escaped_escapeGrows (p : DiagPkt) (b : UInt8) : ∀ c ∈ (p.escaped b).2, c.EscapeGrows := by
  unfold DiagPkt.escaped
  split <;> simp [DiagPkt.seen, Consumed.EscapeGrows]

theorem forall_mem_prepend {P : Consumed → Prop} {out : List Consumed} {k : DiagPkt × List Consumed} :
    (∀ c ∈ (prepend out k).2, P c) ↔ (∀ c ∈ out, P c) ∧ ∀ c ∈ k.2, P c := by
  rw [prepend_snd, List.forall_mem_append]

theorem loop_escapeGrows (n : Nat) (src : List UInt8) (p : DiagPkt) :
    ∀ c ∈ (diagPktLoop n src p).2, c.EscapeGrows := by
  fun_induction diagPktLoop n src p with
  | case1 | case2 | case4 => simp
  | case3 => exact fun c hc => (escape_noEscape _ c hc).grows
  | case5 p m d src' r _ ih | case6 p m d src' r _ ih =>
      -- of the two bytes of a pair only the second is stored
      rw [← prepend_prepend]
      refine forall_mem_prepend.mpr ⟨fun c hc => (escape_noEscape p c hc).grows, ?_⟩
      exact forall_mem_prepend.mpr ⟨escaped_escapeGrows p d, ih⟩
  | case7 n src p _ ih =>
      exact forall_mem_prepend.mpr ⟨fun c hc => (delimiter_noEscape p c hc).grows, ih⟩
  | case8 n c src p _ _ ih =>
      exact forall_mem_prepend.mpr ⟨fun c' hc => (plain_noEscape p c c' hc).grows, ih⟩

theorem runSteps_escapeGrows (p : DiagPkt) (chunks : List (List UInt8)) :
    ∀ c ∈ (runSteps diagPktInput p chunks).2, c.EscapeGrows := by
  induction chunks generalizing p with
  | nil => simp
  | cons chunk chunks ih =>
      rw [runSteps_cons]
      refine forall_mem_prepend.mpr ⟨?_, ih _⟩
      unfold diagPktInput
      split
      · exact forall_mem_prepend.mpr ⟨escaped_escapeGrows _ _, loop_escapeGrows _ _ _⟩
      · exact loop_escapeGrows _ _ _

/-! ## Runs in which every escaped byte finds room

The same condition on the state before each step, instead of on the stores made. -/

/-- Before each escaped byte that the loop of `diag_pkt_input` meets, `pkt_len` is at most `max_pkt_len`. -/
def LoopEscapesFit : Nat → List UInt8 → DiagPkt → Prop
  | 0, _, _ => True
  | _ + 1, [], _ => True
  | n + 1, c :: src, p =>
    if c = 0x7D then
      match n, src with
      | 0, _ => True
      | _ + 1, [] => True
      | m + 1, d :: src' =>
        p.pktLen ≤ p.maxPktLen ∧
          LoopEscapesFit m (if p.start7e = false ∨ p.pktLen ≠ 0 then src' else d :: src') (p.escaped d).1
    else if c = 0x7E then LoopEscapesFit n src p.delimiter.1
    else LoopEscapesFit n src (p.plain c).1

/-- Before each escaped byte that one call meets, `pkt_len` is at most `max_pkt_len`. -/
def EscapesFit (p : DiagPkt) (src : List UInt8) : Prop :=
  match p.last7d, src with
  | true, c :: rest =>
    p.pktLen ≤ p.maxPktLen ∧ LoopEscapesFit rest.length rest ({ p with last7d := false }.escaped c).1
  | _, _ => LoopEscapesFit src.length src p

/-- An escaped byte fits exactly if there was room before it; where it is not stored the frame is empty. -/
theorem escaped_fits_iff (p : DiagPkt) (b : UInt8) (maxLen : Nat) :
    (∀ c ∈ (p.escaped b).2, c.EscapeFits maxLen) ↔ p.pktLen ≤ maxLen := by
  unfold DiagPkt.escaped
  split
  · simp [DiagPkt.seen, Consumed.EscapeFits]
  · rename_i hidle
    rw [not_or, not_not] at hidle
    simp [DiagPkt.seen, Consumed.EscapeFits, hidle.2]

/-- The maximum is fixed at allocation. -/
theorem loop_maxPktLen (n : Nat) (src : List UInt8) (p : DiagPkt) :
    (diagPktLoop n src p).1.maxPktLen = p.maxPktLen := by
  fun_induction diagPktLoop n src p with
  | case1 | case2 | case3 | case4 => rfl
  | case5 p m d src' r _ ih | case6 p m d src' r _ ih =>
      exact ih.trans (DiagPkt.escaped_sameConfig p d).maxPktLen
  | case7 n src p _ ih => exact ih.trans (DiagPkt.delimiter_sameConfig p).maxPktLen
  | case8 n c src p _ _ ih => exact ih.trans (DiagPkt.plain_sameConfig p c).maxPktLen

theorem diagPktInput_maxPktLen (p : DiagPkt) (src : List UInt8) :
    (diagPktInput p src).1.maxPktLen = p.maxPktLen := by
  unfold diagPktInput
  split
  · rename_i c rest _
    exact (loop_maxPktLen _ rest _).trans (DiagPkt.escaped_sameConfig { p with last7d := false } c).maxPktLen
  · exact loop_maxPktLen _ _ p

/-- The records of an escape pair and of what follows. -/
theorem escape_pair_fits_iff (p : DiagPkt) (d : UInt8) (k : DiagPkt × List Consumed) :
    (∀ c ∈ (prepend (p.escape.2 ++ (p.escaped d).2) k).2, c.EscapeFits maxLen)
      ↔ p.pktLen ≤ maxLen ∧ ∀ c ∈ k.2, c.EscapeFits maxLen := by
  rw [← prepend_prepend, forall_mem_prepend, forall_mem_prepend, escaped_fits_iff]
  exact and_iff_right fun c hc => (escape_noEscape p c hc).fits _

theorem loop_fits_iff (n : Nat) (src : List UInt8) (p : DiagPkt) (hmax : p.maxPktLen = maxLen) :
    (∀ c ∈ (diagPktLoop n src p).2, c.EscapeFits maxLen) ↔ LoopEscapesFit n src p := by
  fun_induction diagPktLoop n src p with
  | case1 | case2 | case4 => simp [LoopEscapesFit]
  | case3 src p =>
      rw [LoopEscapesFit, if_pos rfl]
      exact iff_of_true (fun c hc => (escape_noEscape _ c hc).fits _) trivial
  | case5 p m d src' r hin ih =>
      rw [escape_pair_fits_iff, ih ((DiagPkt.escaped_sameConfig p d).maxPktLen.trans hmax)]
      simp only [LoopEscapesFit, if_pos, if_pos hin, hmax]
      rfl
  | case6 p m d src' r hidle ih =>
      rw [escape_pair_fits_iff, ih ((DiagPkt.escaped_sameConfig p d).maxPktLen.trans hmax)]
      simp only [LoopEscapesFit, if_pos, if_neg hidle, hmax]
      rfl
  | case7 n src p h ih =>
      rw [forall_mem_prepend, ih ((DiagPkt.delimiter_sameConfig p).maxPktLen.trans hmax),
        LoopEscapesFit.eq_def (n + 1)]
      simp only [if_neg h, if_pos]
      exact and_iff_right fun c hc => (delimiter_noEscape p c hc).fits _
  | case8 n c src p hd he ih =>
      rw [forall_mem_prepend, ih ((DiagPkt.plain_sameConfig p c).maxPktLen.trans hmax),
        LoopEscapesFit.eq_def (n + 1)]
      simp only [if_neg hd, if_neg he]
      exact and_iff_right fun c' hc => (plain_noEscape p c c' hc).fits _

theorem diagPktInput_fits_iff (p : DiagPkt) (src : List UInt8) (hmax : p.maxPktLen = maxLen) :
    (∀ c ∈ (diagPktInput p src).2, c.EscapeFits maxLen) ↔ EscapesFit p src := by
  cases hlast : p.last7d with
  | false =>
      simp only [diagPktInput, EscapesFit, hlast]
      exact loop_fits_iff _ src p hmax
  -- the escape ended the chunk before, so its pair is completed here
  | true =>
      cases src with
      | nil =>
          simp only [diagPktInput, EscapesFit, hlast]
          exact loop_fits_iff _ [] p hmax
      | cons c rest =>
          have hnext := (DiagPkt.escaped_sameConfig { p with last7d := false } c).maxPktLen.trans hmax
          simp only [diagPktInput, EscapesFit, hlast]
          rw [forall_mem_prepend, escaped_fits_iff, loop_fits_iff _ rest _ hnext, hmax]
          rfl

/-- The stores of a run fit exactly if every escaped byte meets a decoder with room for it. -/
theorem runSteps_fits_iff (p : DiagPkt) (chunks : List (List UInt8)) (hmax : p.maxPktLen = maxLen) :
    (∀ c ∈ (runSteps diagPktInput p chunks).2, c.EscapeFits maxLen)
      ↔ Along diagPktInput EscapesFit p chunks := by
  induction chunks generalizing p with
  | nil => simp [Along]
  | cons chunk chunks ih =>
      rw [runSteps_cons, forall_mem_prepend, diagPktInput_fits_iff p chunk hmax,
        ih _ ((diagPktInput_maxPktLen p chunk).trans hmax), Along]

/-! ## The bounds -/

/-- Everything the deframer does, from its allocation on, for the chunks it is given. -/
def diagPktTrace (caller : DiagCaller) (start7e : Bool) (chunks : List (List UInt8)) : List Consumed :=
  (runSteps diagPktInput (diagPktMalloc caller.minSize caller.maxSize start7e) chunks).2

/-- Every store lies inside the allocated room, and `pkt_len` never exceeds `max_pkt_len + 1`. -/
def DiagPktSafe (caller : DiagCaller) (start7e : Bool) (chunks : List (List UInt8)) : Prop :=
  ∀ c ∈ diagPktTrace caller start7e chunks,
    c.InBounds (diagPktRoom caller.minSize caller.maxSize) caller.maxSize

/-- **The deframer stays in its buffer exactly as long as every escaped byte finds `pkt_len` at most at
`max_pkt_len`**, in both modes and for the sizes of every caller. -/
theorem diagPktInput_safe_iff (caller : DiagCaller) (start7e : Bool) (chunks : List (List UInt8)) :
    DiagPktSafe caller start7e chunks
      ↔ Along diagPktInput EscapesFit (diagPktMalloc caller.minSize caller.maxSize start7e) chunks := by
  rw [← runSteps_fits_iff _ chunks rfl]
  constructor
  -- a store from behind an escape is seen in `pkt_len`, which the bound then limits
  · intro hsafe c hc st hst hesc
    have hgrow := runSteps_escapeGrows _ chunks c hc st hst hesc
    have hlen : c.pktLen ≤ caller.maxSize + 1 := (hsafe c hc).2
    show st.index ≤ caller.maxSize
    omega
  · intro hfits
    have hroom : caller.maxSize + 1 < diagPktRoom caller.minSize caller.maxSize := by
      cases caller <;> decide
    exact (staysBounded_runSteps hroom _ chunks (Nat.zero_le _) rfl hfits).1

/-- A run of escape pairs stores at every index, without limit. -/
theorem exists_store_of_escape_pairs (n : Nat) (p : DiagPkt) (hp : p.start7e = false) :
    ∀ k < n, ∃ c ∈ (diagPktLoop (2 * n) (List.replicate n [0x7D, 0x5E]).flatten p).2,
      c.store = some ⟨p.pktLen + k, true⟩ := by
  induction n generalizing p with
  | zero => exact fun k hk => absurd hk (Nat.not_lt_zero k)
  | succ n ih =>
      intro k hk
      rw [List.replicate_succ, List.flatten_cons, Nat.mul_succ, List.cons_append, List.singleton_append,
        diagPktLoop_escape_pair _ _ _ (Or.inl hp)]
      have hesc : p.escaped 0x5E = (p.put 0x7E).seen (some ⟨p.pktLen, true⟩) none := by
        rw [DiagPkt.escaped, if_pos (Or.inl hp)]
        rfl
      -- the first pair stores at `pkt_len`, the others behind it
      cases k with
      | zero =>
          refine ⟨⟨some ⟨p.pktLen, true⟩, (p.put 0x7E).pktLen, none⟩, ?_, rfl⟩
          rw [hesc]
          exact List.mem_append_left _ (List.mem_append_right _ List.mem_cons_self)
      | succ k =>
          obtain ⟨c, hc, hstore⟩ := ih (p.escaped 0x5E).1 (by rw [hesc]; exact hp) k
            (Nat.lt_of_succ_lt_succ hk)
          refine ⟨c, List.mem_append_right _ hc, ?_⟩
          rw [hstore, hesc, DiagPkt.seen, DiagPkt.pktLen_put, Nat.add_right_comm, Nat.add_assoc]

theorem length_escape_pairs (n : Nat) :
    (List.replicate n ([0x7D, 0x5E] : List UInt8)).flatten.length = 2 * n := by
  induction n with
  | zero => rfl
  | succ n ih =>
      rw [List.replicate_succ, List.flatten_cons, List.length_append, ih, Nat.mul_succ, Nat.add_comm]
      rfl

/-- 18015 escape pairs in one read overrun the Qualcomm buffer. -/
theorem mdm_escape_pairs_overrun :
    ¬ DiagPktSafe .mdmInitFilter false [(List.replicate 18015 [0x7D, 0x5E]).flatten] := by
  intro hsafe
  obtain ⟨c, hc, hstore⟩ := exists_store_of_escape_pairs 18015 mdmDiagPkt rfl 18014 (by decide)
  have hmem : c ∈ diagPktTrace .mdmInitFilter false [(List.replicate 18015 [0x7D, 0x5E]).flatten] := by
    rw [diagPktTrace, runSteps_singleton]
    show c ∈ (diagPktLoop _ _ mdmDiagPkt).2
    rw [length_escape_pairs]
    exact hc
  have hindex := (hsafe c hmem).1 _ hstore
  exact absurd hindex (by decide)

end QLog
