import QLog.Diag.Packet

/-! # What the DIAG deframer delivers

The decoder one byte at a time (`DiagPkt.byte`) is the reference: it does not depend on how the stream is
cut. `diagPktInput_eq_run` says that `diag_pkt_input` follows it on every chunk that does not show an
escape with a byte behind it outside a frame (`NoIdleEscape`); in the mode without a leading delimiter
that is every chunk. Round trip, chunking invariance and resynchronisation are then facts about the
reference decoder. -/

namespace QLog

open Library

namespace DiagPkt

/-- The decoder on one byte, with the escape remembered in `last_7d`. -/
def byte (p : DiagPkt) (b : UInt8) : DiagPkt × List Consumed :=
  if p.last7d = true then { p with last7d := false }.escaped b
  else if b = 0x7D then { p with last7d := true }.escape
  else if b = 0x7E then p.delimiter
  else p.plain b

/-- Outside a frame of the mode `start_7e`, with no escape pending. -/
def Idle (p : DiagPkt) : Prop := p.start7e = true ∧ p.buf = [] ∧ p.last7d = false

instance (p : DiagPkt) : Decidable p.Idle := inferInstanceAs (Decidable (_ ∧ _ ∧ _))

/-! ## What the branches keep -/

@[simp] theorem escaped_last7d (p : DiagPkt) (b : UInt8) : (p.escaped b).1.last7d = p.last7d := by
  unfold escaped
  split <;> rfl

@[simp] theorem delimiter_last7d (p : DiagPkt) : p.delimiter.1.last7d = p.last7d := by
  unfold delimiter
  dsimp only
  split_ifs <;> rfl

@[simp] theorem plain_last7d (p : DiagPkt) (b : UInt8) : (p.plain b).1.last7d = p.last7d := by
  unfold plain
  dsimp only
  split_ifs <;> rfl

/-- The mode and the two lengths are fixed at allocation. -/
structure SameConfig (p q : DiagPkt) : Prop where
  start7e : q.start7e = p.start7e
  minPktLen : q.minPktLen = p.minPktLen
  maxPktLen : q.maxPktLen = p.maxPktLen

theorem escaped_sameConfig (p : DiagPkt) (b : UInt8) : SameConfig p (p.escaped b).1 := by
  unfold escaped
  split <;> exact ⟨rfl, rfl, rfl⟩

theorem delimiter_sameConfig (p : DiagPkt) : SameConfig p p.delimiter.1 := by
  unfold delimiter
  dsimp only
  split_ifs <;> exact ⟨rfl, rfl, rfl⟩

theorem plain_sameConfig (p : DiagPkt) (b : UInt8) : SameConfig p (p.plain b).1 := by
  unfold plain
  dsimp only
  split_ifs <;> exact ⟨rfl, rfl, rfl⟩

theorem byte_sameConfig (p : DiagPkt) (b : UInt8) : SameConfig p (p.byte b).1 := by
  unfold byte
  split_ifs
  · exact ⟨(escaped_sameConfig _ b).1, (escaped_sameConfig _ b).2, (escaped_sameConfig _ b).3⟩
  · exact ⟨rfl, rfl, rfl⟩
  · exact delimiter_sameConfig p
  · exact plain_sameConfig p b

/-- Every run of bytes keeps the configuration. -/
theorem run_sameConfig (p : DiagPkt) (s : List UInt8) : SameConfig p (runSteps byte p s).1 := by
  have hstep : ∀ q b, SameConfig p q → SameConfig p (q.byte b).1 := by
    intro q b hq
    have hb := byte_sameConfig q b
    exact ⟨hb.1.trans hq.1, hb.2.trans hq.2, hb.3.trans hq.3⟩
  exact runSteps_invariant byte hstep p s ⟨rfl, rfl, rfl⟩

/-! ## The byte step, case by case -/

theorem byte_behind_escape {p : DiagPkt} (b : UInt8) (hp : p.last7d = true) :
    p.byte b = { p with last7d := false }.escaped b := by
  simp [byte, hp]

theorem byte_escape {p : DiagPkt} (hp : p.last7d = false) :
    p.byte 0x7D = { p with last7d := true }.escape := by
  simp [byte, hp]

theorem byte_delimiter {p : DiagPkt} (hp : p.last7d = false) : p.byte 0x7E = p.delimiter := by
  simp [byte, hp]

theorem byte_plain {p : DiagPkt} {b : UInt8} (hp : p.last7d = false) (hd : b ≠ 0x7D)
    (he : b ≠ 0x7E) : p.byte b = p.plain b := by
  simp [byte, hp, hd, he]

/-- An escape and the byte behind it, taken together. -/
theorem run_escape_pair {p : DiagPkt} (d : UInt8) (hp : p.last7d = false) (rest : List UInt8) :
    runSteps byte p (0x7D :: d :: rest)
      = prepend (p.escape.2 ++ (p.escaped d).2) (runSteps byte (p.escaped d).1 rest) := by
  have hback : { { p with last7d := true } with last7d := false } = p := by rw [← hp]
  have hpair : ({ p with last7d := true } : DiagPkt).byte d = p.escaped d := by
    rw [byte_behind_escape d rfl]
    exact congrArg (fun q => DiagPkt.escaped q d) hback
  rw [runSteps_cons, byte_escape hp, runSteps_cons]
  simp only [escape, seen]
  rw [hpair, prepend_prepend]
  rfl

end DiagPkt

/-! ## The chunk function follows the byte decoder -/

/-- Running byte by byte over the stream, no escape byte with another byte behind it is met outside a frame
of the mode `start_7e`. -/
def NoIdleEscape : DiagPkt → List UInt8 → Prop
  | _, [] => True
  | p, c :: rest => ¬ (p.Idle ∧ c = 0x7D ∧ rest ≠ []) ∧ NoIdleEscape (p.byte c).1 rest

instance NoIdleEscape.decidable : (p : DiagPkt) → (s : List UInt8) → Decidable (NoIdleEscape p s)
  | _, [] => inferInstanceAs (Decidable True)
  | p, c :: rest =>
    have := NoIdleEscape.decidable (p.byte c).1 rest
    inferInstanceAs (Decidable (¬ (p.Idle ∧ c = 0x7D ∧ rest ≠ []) ∧ NoIdleEscape (p.byte c).1 rest))

/-- Without a leading delimiter there is no such place. -/
theorem noIdleEscape_of_start7e_false (p : DiagPkt) (s : List UInt8) (hp : p.start7e = false) :
    NoIdleEscape p s := by
  induction s generalizing p with
  | nil => trivial
  | cons c rest ih =>
      refine ⟨fun h => ?_, ih _ ((DiagPkt.byte_sameConfig p c).start7e.trans hp)⟩
      rw [h.1.1] at hp
      exact absurd hp (by decide)

/-- The condition passes to the two parts of a cut stream. -/
theorem noIdleEscape_append (p : DiagPkt) (as bs : List UInt8) (h : NoIdleEscape p (as ++ bs)) :
    NoIdleEscape p as ∧ NoIdleEscape (runSteps DiagPkt.byte p as).1 bs := by
  induction as generalizing p with
  | nil => exact ⟨trivial, h⟩
  | cons c as ih =>
      obtain ⟨hc, hrest⟩ := h
      obtain ⟨has, hbs⟩ := ih _ hrest
      refine ⟨⟨fun hx => hc ⟨hx.1, hx.2.1, ?_⟩, has⟩, hbs⟩
      simp [hx.2.2]

/-- The loop with both cursors in step is the byte decoder. -/
theorem diagPktLoop_eq_run (n : Nat) :
    ∀ (src : List UInt8) (p : DiagPkt), src.length = n → p.last7d = false → NoIdleEscape p src →
      diagPktLoop n src p = runSteps DiagPkt.byte p src := by
  -- Strong induction: an escape pair takes two bytes in one round of the loop.
  induction n using Nat.strongRecOn with
  | _ n ih =>
    intro src p hn hp hok
    match src with
    | [] =>
        subst hn
        rfl
    | c :: src =>
        subst hn
        rw [List.length_cons]
        by_cases hd : c = 0x7D
        · subst hd
          match src with
          | [] => rw [List.length_nil, diagPktLoop_last_escape, runSteps_singleton,
              DiagPkt.byte_escape hp]
          | d :: src' =>
              -- the pair is inside a frame, or frames have no leading delimiter: both cursors advance
              have hin : p.start7e = false ∨ p.pktLen ≠ 0 := by
                by_contra hidle
                rw [not_or, not_not, Bool.not_eq_false] at hidle
                exact hok.1 ⟨⟨hidle.1, List.length_eq_zero_iff.mp hidle.2, hp⟩, rfl, by simp⟩
              have hok' : NoIdleEscape (p.escaped d).1 src' := by
                have hcut := (noIdleEscape_append p [0x7D, d] src' hok).2
                rwa [DiagPkt.run_escape_pair d hp] at hcut
              rw [DiagPkt.run_escape_pair d hp, List.length_cons, diagPktLoop_escape_pair _ d src' hin,
                ih src'.length (by simp only [List.length_cons]; omega) src' _ rfl (by simp [hp]) hok']
        · by_cases he : c = 0x7E
          · subst he
            have hok' := hok.2
            rw [DiagPkt.byte_delimiter hp] at hok'
            rw [diagPktLoop_delimiter, runSteps_cons, DiagPkt.byte_delimiter hp,
              ih src.length (by simp) src _ rfl (by simp [hp]) hok']
          · have hok' := hok.2
            rw [DiagPkt.byte_plain hp hd he] at hok'
            rw [diagPktLoop_plain _ src p hd he, runSteps_cons, DiagPkt.byte_plain hp hd he,
              ih src.length (by simp) src _ rfl (by simp [hp]) hok']

/-- **`diag_pkt_input` is the byte decoder** on every chunk without an escape pair outside a frame. -/
theorem diagPktInput_eq_run (p : DiagPkt) (src : List UInt8) (hok : NoIdleEscape p src) :
    diagPktInput p src = runSteps DiagPkt.byte p src := by
  unfold diagPktInput
  cases hp : p.last7d with
  | false => exact diagPktLoop_eq_run _ src p rfl hp hok
  | true =>
      cases src with
      | nil => rfl
      | cons c rest =>
          have hok' := hok.2
          rw [DiagPkt.byte_behind_escape c hp] at hok'
          simp only
          rw [runSteps_cons, DiagPkt.byte_behind_escape c hp,
            diagPktLoop_eq_run _ rest _ rfl (by simp) hok']

/-- Feeding chunks is running the byte decoder over the stream they make up. -/
theorem runSteps_diagPktInput (p : DiagPkt) (chunks : List (List UInt8))
    (hne : ∀ c ∈ chunks, c ≠ []) (hok : NoIdleEscape p chunks.flatten) :
    runSteps diagPktInput p chunks = runSteps DiagPkt.byte p chunks.flatten :=
  runSteps_flatten DiagPkt.byte diagPktInput (fun q c _ h => diagPktInput_eq_run q c h)
    noIdleEscape_append p chunks hne hok

/-! ## Reading a stream

`Decodes cond p s q out` collects what the results on streams need: where the byte decoder ends, what it
delivers, and a condition that every byte meets on the way. -/

/-- The byte is not an escape outside a frame of the mode `start_7e`. -/
def EscapeInside (p : DiagPkt) (b : UInt8) : Prop := ¬ (p.Idle ∧ b = 0x7D)

/-- Reading `s` takes the decoder from `p` to `q`, delivering `out`, and every byte meets `cond`. -/
structure Decodes (cond : DiagPkt → UInt8 → Prop) (p : DiagPkt) (s : List UInt8) (q : DiagPkt)
    (out : List (List UInt8)) : Prop where
  state : (runSteps DiagPkt.byte p s).1 = q
  out : packets (runSteps DiagPkt.byte p s).2 = out
  along : Along DiagPkt.byte cond p s

theorem noIdleEscape_of_along (p : DiagPkt) (s : List UInt8)
    (h : Along DiagPkt.byte EscapeInside p s) : NoIdleEscape p s := by
  induction s generalizing p with
  | nil => trivial
  | cons c rest ih => exact ⟨fun hx => h.1 ⟨hx.1, hx.2.1⟩, ih _ h.2⟩

namespace Decodes

variable {cond : DiagPkt → UInt8 → Prop}

theorem nil (p : DiagPkt) : Decodes cond p [] p [] := ⟨rfl, rfl, trivial⟩

/-- One byte. -/
theorem byte {p : DiagPkt} {b : UInt8} (h : cond p b) :
    Decodes cond p [b] (p.byte b).1 (packets (p.byte b).2) := by
  refine ⟨?_, ?_, h, trivial⟩ <;> rw [runSteps_singleton]

/-- Streams read one after the other. -/
theorem append {p q r : DiagPkt} {s t : List UInt8} {a b : List (List UInt8)}
    (hs : Decodes cond p s q a) (ht : Decodes cond q t r b) : Decodes cond p (s ++ t) r (a ++ b) := by
  refine ⟨?_, ?_, ?_⟩
  · rw [runSteps_append, hs.state]
    exact ht.state
  · rw [runSteps_append, hs.state, prepend_snd, packets_append, hs.out, ht.out]
  · rw [along_append, hs.state]
    exact ⟨hs.along, ht.along⟩

theorem mono {cond' : DiagPkt → UInt8 → Prop} (himp : ∀ q b, cond q b → cond' q b)
    {p q : DiagPkt} {s : List UInt8} {a : List (List UInt8)} (h : Decodes cond p s q a) :
    Decodes cond' p s q a :=
  ⟨h.state, h.out, along_mono DiagPkt.byte himp p s h.along⟩

/-- Without a leading delimiter every stream is read with all escapes inside. -/
theorem of_start7e_false (p : DiagPkt) (s : List UInt8) (hp : p.start7e = false) :
    Decodes EscapeInside p s (runSteps DiagPkt.byte p s).1
      (packets (runSteps DiagPkt.byte p s).2) := by
  have hstep : ∀ (q : DiagPkt) (b : UInt8), q.start7e = false → (q.byte b).1.start7e = false := by
    intro q b hq
    exact (DiagPkt.byte_sameConfig q b).start7e.trans hq
  have hcond : ∀ (q : DiagPkt) (b : UInt8), q.start7e = false → EscapeInside q b := by
    intro q b hq hx
    rw [hx.1.1] at hq
    exact absurd hq (by decide)
  exact ⟨rfl, rfl, along_of_invariant DiagPkt.byte hstep hcond p s hp⟩

/-- With every escape inside, any chunking gives `diag_pkt_input` the same end and the same packets. -/
theorem feed_eq {p q : DiagPkt} {chunks : List (List UInt8)} {out : List (List UInt8)}
    (h : Decodes EscapeInside p chunks.flatten q out) (hne : ∀ c ∈ chunks, c ≠ []) :
    feed p chunks = (q, out) := by
  rw [feed, runSteps_diagPktInput p chunks hne (noIdleEscape_of_along p _ h.along), h.state, h.out]

end Decodes

end QLog
