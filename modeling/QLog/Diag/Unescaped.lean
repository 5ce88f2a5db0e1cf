import QLog.Diag.RoundTrip

/-! # Frames that are sent as they are

The AT channel puts its delimiters around a payload and does not stuff it. The decoder makes one byte of a packet of
every byte it reads at most, and none of an escape: a frame comes out as it is only if its payload has no reserved
byte. -/

namespace QLog

open Library DiagPkt

/-- How many bytes the packets have that are delivered. -/
def deliveredSize (trace : List Consumed) : Nat := (packets trace).flatten.length

@[simp] theorem deliveredSize_nil : deliveredSize [] = 0 := rfl

@[simp] theorem deliveredSize_append (a b : List Consumed) :
    deliveredSize (a ++ b) = deliveredSize a + deliveredSize b := by
  rw [deliveredSize, packets_append, List.flatten_append, List.length_append]
  rfl

namespace DiagPkt

variable (p : DiagPkt) (b : UInt8)

theorem escape_weight : deliveredSize p.escape.2 = 0 := rfl

theorem escaped_weight : (p.escaped b).1.pktLen + deliveredSize (p.escaped b).2 ≤ p.pktLen + 1 := by
  rw [escaped]
  split
  · exact Nat.le_of_eq (p.pktLen_put (b ^^^ 0x20))
  · exact Nat.le_succ _

theorem pktLen_setPktLen (n : Nat) : (p.setPktLen n).pktLen ≤ n := by
  rw [setPktLen, pktLen]
  exact List.length_take_le _ _

theorem delimiter_weight : p.delimiter.1.pktLen + deliveredSize p.delimiter.2 ≤ p.pktLen + 1 := by
  have hput : (p.put 0x7E).buf.length = p.pktLen + 1 := p.pktLen_put 0x7E
  unfold delimiter
  dsimp only
  split_ifs with hlong hfirst hsecond
  · show ((p.put 0x7E).setPktLen 0).pktLen + [(p.put 0x7E).buf].flatten.length ≤ _
    rw [List.flatten_singleton]
    have hzero := (p.put 0x7E).pktLen_setPktLen 0
    omega
  · exact Nat.le_of_eq hput
  · show ((p.put 0x7E).fail.setPktLen 1).pktLen ≤ _
    have hone := (p.put 0x7E).fail.pktLen_setPktLen 1
    omega
  · show ((p.put 0x7E).fail.setPktLen 0).pktLen ≤ _
    have hzero := (p.put 0x7E).fail.pktLen_setPktLen 0
    omega

theorem plain_weight : (p.plain b).1.pktLen + deliveredSize (p.plain b).2 ≤ p.pktLen + 1 := by
  have hput : (p.put b).buf.length = p.pktLen + 1 := p.pktLen_put b
  unfold plain
  dsimp only
  split_ifs with hnoise hlong
  · exact Nat.le_succ _
  · show ((p.put b).fail.setPktLen 0).pktLen ≤ _
    have hzero := (p.put b).fail.pktLen_setPktLen 0
    omega
  · exact Nat.le_of_eq hput

end DiagPkt

/-- **No byte is made up**: what is stored and delivered is at most what was stored and one byte for each round. -/
theorem diagPktLoop_weight (n : Nat) (src : List UInt8) (p : DiagPkt) :
    (diagPktLoop n src p).1.pktLen + deliveredSize (diagPktLoop n src p).2 ≤ p.pktLen + n := by
  fun_induction diagPktLoop n src p with
  | case1 | case2 | case3 | case4 => exact Nat.le_add_right _ _
  -- an escape pair takes two rounds
  | case5 p m d src' r _ ih | case6 p m d src' r _ ih =>
      have hpair : r.1.pktLen + deliveredSize r.2 ≤ p.pktLen + 1 := escaped_weight p d
      rw [prepend_fst, prepend_snd, deliveredSize_append, deliveredSize_append, escape_weight]
      omega
  | case7 n src p _ ih =>
      have hhere := p.delimiter_weight
      rw [prepend_fst, prepend_snd, deliveredSize_append]
      omega
  | case8 n c src p _ _ ih =>
      have hhere := p.plain_weight c
      rw [prepend_fst, prepend_snd, deliveredSize_append]
      omega

/-! ## A frame with a reserved byte -/

/-- The loop on bytes none of which is an escape. -/
theorem diagPktLoop_append {p : DiagPkt} (front : List UInt8) (hp : p.last7d = false) (hfront : 0x7D ∉ front) (n : Nat)
    (rest : List UInt8) : diagPktLoop (front.length + n) (front ++ rest) p =
      prepend (runSteps byte p front).2 (diagPktLoop n rest (runSteps byte p front).1) := by
  induction front generalizing p with
  | nil => rw [List.length_nil, Nat.zero_add]; rfl
  | cons b front ih =>
      obtain ⟨hb, hmore⟩ := not_or.mp (mt List.mem_cons.mpr hfront)
      rw [List.length_cons, Nat.succ_add, List.cons_append, runSteps_cons, prepend_fst, prepend_snd]
      by_cases he : b = 0x7E
      · subst he
        rw [diagPktLoop_delimiter, byte_delimiter hp, ih (by rw [delimiter_last7d, hp]) hmore, prepend_prepend]
      · rw [diagPktLoop_plain _ _ p (Ne.symm hb) he, byte_plain hp (Ne.symm hb) he,
          ih (by rw [plain_last7d, hp]) hmore, prepend_prepend]

section Frame

variable {p : DiagPkt}

/-- A frame is open, and a reserved byte comes that the sender has not escaped: less is delivered than the frame. -/
theorem packets_of_reserved (hp : p.Open) {r : UInt8} (hr : diagCode.reserved r = true) (rest frame : List UInt8)
    (hrest : rest ≠ []) (hframe : frame.length = p.pktLen + (rest.length + 1)) (hopen : p.pktLen ≠ 0) :
    packets (diagPktLoop (rest.length + 1) (r :: rest) p).2 ≠ [frame] := by
  intro hpackets
  have htotal : deliveredSize (diagPktLoop (rest.length + 1) (r :: rest) p).2 = frame.length := by
    rw [deliveredSize, hpackets, List.flatten_singleton]
  have hr' : r = 0x7E ∨ r = 0x7D := by simpa [diagCode] using hr
  rcases hr' with rfl | rfl
  · rw [diagPktLoop_delimiter, prepend_snd] at hpackets htotal
    have hloop := diagPktLoop_weight rest.length rest p.delimiter.1
    by_cases hlong : (p.put 0x7E).minPktLen ≤ (p.put 0x7E).pktLen
    · -- a packet is delivered that ends here
      have hfirst : packets p.delimiter.2 = [(p.put 0x7E).buf] := by
        unfold delimiter
        simp only [if_pos hlong]
        rfl
      rw [packets_append, hfirst, List.singleton_append, List.cons.injEq] at hpackets
      have hlen : frame.length = p.pktLen + 1 := by
        rw [← hpackets.1]
        exact p.pktLen_put 0x7E
      exact hrest (List.length_eq_zero_iff.mp (by omega))
    · -- what is open is thrown away
      have hshort : p.delimiter.1.pktLen ≤ 1 ∧ deliveredSize p.delimiter.2 = 0 := by
        unfold delimiter
        dsimp only
        rw [if_neg hlong]
        split_ifs with hfirst hsecond
        · exact ⟨Nat.le_of_eq hfirst.2, rfl⟩
        · exact ⟨pktLen_setPktLen _ 1, rfl⟩
        · exact ⟨Nat.le_trans (pktLen_setPktLen _ 0) (Nat.zero_le 1), rfl⟩
      rw [deliveredSize_append] at htotal
      omega
  · -- the escape is no byte of the packet
    obtain ⟨d, more, rfl⟩ := List.exists_cons_of_ne_nil hrest
    have hpair := escaped_weight p d
    have hloop := diagPktLoop_weight more.length more (p.escaped d).1
    rw [List.length_cons, diagPktLoop_escape_pair _ d more hp.stores, prepend_snd, deliveredSize_append,
      deliveredSize_append, escape_weight] at htotal
    rw [List.length_cons] at hframe
    omega

/-- Up to its first reserved byte, a payload opens the frame. -/
theorem feed_of_reserved (hp : p.Clean) (hmode : p.start7e = true) (hopen : 1 < p.minPktLen) {a back : List UInt8}
    {r : UInt8} (ha : ∀ b ∈ a, diagCode.reserved b = false) (hr : diagCode.reserved r = true)
    (hmax : a.length + 1 ≤ p.maxPktLen) :
    (feed p [[0x7E] ++ (a ++ r :: back) ++ [0x7E]]).2 ≠ [[0x7E] ++ (a ++ r :: back) ++ [0x7E]] := by
  have hlen : p.pktLen = 0 := by rw [pktLen, hp.1, List.length_nil]
  have hput : (p.put 0x7E).pktLen = 1 := by rw [pktLen_put, hlen]
  have hbody := decodes_stuff (p := p.put 0x7E) a ⟨hp.2, Or.inr (by simp [put])⟩
    (by rw [hput]; exact Nat.le_trans (by omega) hmax)
  rw [show stuff a = a from diagCode.stuff_of_plain ha] at hbody
  have hfront := (decodes_start hp hmode hopen).append hbody
  have hescape : (0x7D : UInt8) ∉ [0x7E] ++ a := by
    rw [List.singleton_append, List.mem_cons, not_or]
    exact ⟨by decide, fun hmem => absurd (ha _ hmem) (by decide)⟩
  have hloop := diagPktLoop_append ([0x7E] ++ a) hp.2 hescape (back.length + 2) (r :: (back ++ [0x7E]))
  rw [hfront.state] at hloop
  have hopened : ((p.put 0x7E).extend a).pktLen = a.length + 1 := by
    simp only [extend, put, pktLen, hp.1, List.nil_append, List.singleton_append, List.length_cons]
  have hopen' : ((p.put 0x7E).extend a).Open := ⟨hp.2, Or.inr (by simp [extend, put])⟩
  have hne := packets_of_reserved hopen' hr (back ++ [0x7E]) ([0x7E] ++ (a ++ r :: back) ++ [0x7E]) (by simp)
    (by rw [hopened]; simp; omega) (by rw [hopened]; exact Nat.succ_ne_zero _)
  have hsplit : [0x7E] ++ (a ++ r :: back) ++ [0x7E] = ([0x7E] ++ a) ++ r :: (back ++ [0x7E]) := by simp
  have hlength : ([0x7E] ++ (a ++ r :: back) ++ [0x7E]).length = ([0x7E] ++ a).length + (back.length + 2) := by
    simp
    omega
  have hinput : (feed p [[0x7E] ++ (a ++ r :: back) ++ [0x7E]]).2 =
      packets (diagPktLoop ([0x7E] ++ (a ++ r :: back) ++ [0x7E]).length
        ([0x7E] ++ (a ++ r :: back) ++ [0x7E]) p).2 := by
    rw [feed, runSteps_singleton, diagPktInput]
    simp [hp.2]
  intro h
  rw [hinput, hlength, hsplit, hloop, prepend_snd, packets_append, hfront.out, List.append_nil, List.nil_append,
    ← hsplit] at h
  refine absurd ?_ hne
  simpa using h

/-- **A frame that is sent as it is** comes out so exactly if its payload has no reserved byte. -/
theorem packets_unescaped_iff (hp : p.Clean) (hmode : p.start7e = true) (hopen : 1 < p.minPktLen)
    (payload : List UInt8) (hmin : p.minPktLen ≤ payload.length + 2) (hmax : payload.length + 1 ≤ p.maxPktLen) :
    (feed p [[0x7E] ++ payload ++ [0x7E]]).2 = [[0x7E] ++ payload ++ [0x7E]] ↔
      ∀ b ∈ payload, diagCode.reserved b = false := by
  constructor
  · intro h
    cases hfind : payload.find? diagCode.reserved with
    | none => simpa using List.find?_eq_none.mp hfind
    | some r =>
        obtain ⟨hr, a, back, rfl, ha⟩ := List.find?_eq_some_iff_append.mp hfind
        rw [List.length_append, List.length_cons] at hmax
        exact absurd h (feed_of_reserved hp hmode hopen (fun b hb => by simpa using ha b hb) hr (by omega))
  · intro hplain
    have hstuff : stuff payload = payload := diagCode.stuff_of_plain hplain
    have hframe := decodes_delimited_frame payload hp hmode hopen hmin hmax
    rw [hstuff] at hframe
    have hfeed := hframe.mono (fun _ _ hx => hx.1)
    rw [Decodes.feed_eq (by rwa [List.flatten_singleton]) (by simp)]

end Frame

end QLog
