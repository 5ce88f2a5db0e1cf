import QLog.Library.History
import QLog.Sahara.Table

/-! # The buffers of the Sahara client

What the client writes to `q_rx_buf` and `q_misc_buf`, both of `Q_SAHARA_RAW_BUF_SZ` bytes: packets, which the port cuts
to `MAX_TO_READ` bytes; blocks of memory, of at most `q_max_ram_dump_read` bytes; the memory table, whose length is
compared with the size of the buffers before it is awaited; and the entries of the table, which grow from 52 to 64
bytes when they are converted.

The writes are listed as the steps make them. That the list is right is `applyWrites_rxWrites`: the writes, made one
after another, give the buffer of the next state. -/

namespace QLog

open Library

/-! ## Writes of a receive -/

/-- What `sahara_rx_data (0)` writes. -/
def saharaRxPacketWrites (rxBuf : List UInt8) (answers : PortAnswers) : List (Write UInt8) :=
  let clear : Write UInt8 := ⟨0, List.replicate 8 0⟩
  match portRxData 8 answers with
  | (none, _) => [clear]
  | (some header, answers) =>
      let rxBuf := overwrite (overwrite rxBuf 0 (List.replicate 8 0)) 0 header
      if header.length ≠ 8 then [clear, ⟨0, header⟩]
      else if qCmd rxBuf < 0x13 then
        match (portRxData ((qLen rxBuf + 2 ^ 64 - 8) % 2 ^ 64) answers).1 with
        | none => [clear, ⟨0, header⟩]
        | some bytes => [clear, ⟨0, header⟩, ⟨8, bytes⟩]
      else [clear, ⟨0, header⟩]

/-- What the `while` loop of `sahara_rx_data` writes once `got` bytes have come. -/
def saharaRxLoopWrites (bytesToRead : Nat) : Nat → PortAnswers → List (Write UInt8)
  | _, [] => []
  | got, answer :: answers =>
      if bytesToRead ≤ got then []
      else
        match (portRxData (bytesToRead - got) [answer]).1 with
        | none => []
        | some bytes => ⟨got, bytes⟩ :: saharaRxLoopWrites bytesToRead (got + bytes.length) answers

/-- What `sahara_rx_data` writes. -/
def saharaRxDataWrites (bytesToRead : Nat) (rxBuf : List UInt8) (answers : PortAnswers) : List (Write UInt8) :=
  if bytesToRead = 0 then saharaRxPacketWrites rxBuf answers else saharaRxLoopWrites bytesToRead 0 answers

theorem applyWrites_saharaRxPacketWrites (rxBuf : List UInt8) (answers : PortAnswers) :
    applyWrites rxBuf (saharaRxPacketWrites rxBuf answers) = (saharaRxPacket rxBuf answers).2 := by
  rw [saharaRxPacketWrites, saharaRxPacket]
  cases portRxData 8 answers with
  | mk header answers =>
      cases header with
      | none => rfl
      | some header =>
          dsimp only
          split
          · rfl
          · split
            · cases (portRxData ((qLen (overwrite (overwrite rxBuf 0 (List.replicate 8 0)) 0 header) + 2 ^ 64 - 8)
                % 2 ^ 64) answers).1 with
              | none => rfl
              | some bytes => rfl
            · rfl

theorem applyWrites_saharaRxLoopWrites (n : Nat) (answers : PortAnswers) (got rxBuf : List UInt8) :
    applyWrites rxBuf (saharaRxLoopWrites n got.length answers) = (saharaRxLoop n got rxBuf answers).2 := by
  induction answers generalizing got rxBuf with
  | nil => rfl
  | cons answer answers ih =>
      rw [saharaRxLoopWrites, saharaRxLoop]
      split
      · rfl
      · cases (portRxData (n - got.length) [answer]).1 with
        | none => rfl
        | some bytes =>
            have hrest := ih (got ++ bytes) (overwrite rxBuf got.length bytes)
            rw [List.length_append] at hrest
            exact hrest

theorem applyWrites_saharaRxDataWrites (n : Nat) (rxBuf : List UInt8) (answers : PortAnswers) :
    applyWrites rxBuf (saharaRxDataWrites n rxBuf answers) = (saharaRxData n rxBuf answers).2 := by
  rw [saharaRxDataWrites, saharaRxData]
  split
  · exact applyWrites_saharaRxPacketWrites rxBuf answers
  · exact applyWrites_saharaRxLoopWrites n answers [] rxBuf

/-- A packet ends within the header and what the port reads at once, whatever length it announces. -/
theorem inBounds_saharaRxPacketWrites (rxBuf : List UInt8) (answers : PortAnswers) :
    ∀ w ∈ saharaRxPacketWrites rxBuf answers, w.InBounds qSaharaRawBufSz := by
  have hclear : Write.InBounds qSaharaRawBufSz ⟨0, List.replicate 8 (0 : UInt8)⟩ := by
    show 0 + 8 ≤ 128 * 1024
    omega
  rw [saharaRxPacketWrites]
  cases hport : portRxData 8 answers with
  | mk header answers =>
      cases header with
      | none => exact List.forall_mem_singleton.mpr hclear
      | some header =>
          have hsize := portRxData_length (congrArg Prod.fst hport)
          have hheader : Write.InBounds qSaharaRawBufSz ⟨0, header⟩ := by
            show 0 + header.length ≤ 128 * 1024
            omega
          have hfront : ∀ w ∈ ([⟨0, List.replicate 8 0⟩, ⟨0, header⟩] : List (Write UInt8)),
              w.InBounds qSaharaRawBufSz :=
            List.forall_mem_cons.mpr ⟨hclear, List.forall_mem_singleton.mpr hheader⟩
          dsimp only
          split
          · exact hfront
          · split
            · split
              · exact hfront
              · next bytes hrest =>
                  have hbytes := portRxData_length hrest
                  refine List.forall_mem_cons.mpr ⟨hclear, List.forall_mem_cons.mpr ⟨hheader, ?_⟩⟩
                  refine List.forall_mem_singleton.mpr ?_
                  show 8 + bytes.length ≤ 128 * 1024
                  rw [maxToRead] at hbytes
                  omega
            · exact hfront

/-- A block ends where it should. -/
theorem inBounds_saharaRxLoopWrites {n : Nat} (answers : PortAnswers) {got : Nat} (hgot : got ≤ n) :
    ∀ w ∈ saharaRxLoopWrites n got answers, w.InBounds n := by
  induction answers generalizing got with
  | nil => exact List.forall_mem_nil _
  | cons answer answers ih =>
      rw [saharaRxLoopWrites]
      split
      · exact List.forall_mem_nil _
      · split
        · exact List.forall_mem_nil _
        · next bytes hport =>
            have hsize := portRxData_length hport
            have hend : got + bytes.length ≤ n := by omega
            exact List.forall_mem_cons.mpr ⟨hend, ih hend⟩

theorem inBounds_saharaRxDataWrites {n : Nat} (hn : n ≤ qSaharaRawBufSz) (rxBuf : List UInt8)
    (answers : PortAnswers) : ∀ w ∈ saharaRxDataWrites n rxBuf answers, w.InBounds qSaharaRawBufSz := by
  rw [saharaRxDataWrites]
  split
  · exact inBounds_saharaRxPacketWrites rxBuf answers
  · exact fun w hw => (inBounds_saharaRxLoopWrites answers (Nat.zero_le n) w hw).trans hn

/-! ## Writes of a step -/

namespace SaharaClient

/-- What a step writes to `q_rx_buf`. -/
def rxWrites (s : SaharaClient) (a : SaharaAnswers) : List (Write UInt8) :=
  match s.result with
  | some _ => []
  | none =>
      match s.state with
      | .waitOne =>
          let first := saharaRxPacket s.rxBuf a.rx
          if first.1 ∨ a.wakeUp = false then saharaRxPacketWrites s.rxBuf a.rx
          else saharaRxPacketWrites s.rxBuf a.rx ++ saharaRxPacketWrites first.2 a.rxAgain
      | .waitTwo | .waitThree => saharaRxPacketWrites s.rxBuf a.rx
      | .waitSeven => if s.memoryTableLength = 0 then [] else saharaRxDataWrites s.memoryTableLength s.rxBuf a.rx
      | .waitEight =>
          match s.memoryTable[s.i]?, s.cur with
          | some e, some cur =>
              if cur < e.len ∧ a.tx then
                saharaRxDataWrites (requestLen e ⟨s.rxBuf, s.maxRamDumpRead, cur⟩) s.rxBuf a.rx
              else []
          | _, _ => []
      | .waitFour | .waitFive | .waitSix => []

/-- What a step writes to `q_misc_buf`. -/
def miscWrites (s : SaharaClient) (a : SaharaAnswers) : List (Write UInt8) :=
  if s.result = none ∧ s.state = .waitSeven ∧ s.memoryTableLength ≠ 0 then
    match saharaRxData s.memoryTableLength s.rxBuf a.rx with
    | (none, _) => []
    | (some _, rxBuf) =>
        if s.ramDump64bit = false ∧ qSaharaRawBufSz < s.memoryTableLength / debugTypeSize false * debugTypeSize true
        then []
        else tableWrites s.ramDump64bit rxBuf s.memoryTableLength
  else []

@[simp] theorem sendReset_rxBuf (s : SaharaClient) (a : SaharaAnswers) : (s.sendReset a).1.rxBuf = s.rxBuf := by
  rw [sendReset]
  cases a.tx <;> rfl

@[simp] theorem greet_rxBuf (cfg : SaharaConfig) (s : SaharaClient) (a : SaharaAnswers) :
    (greet cfg s a).1.rxBuf = s.rxBuf := by
  rw [greet]
  split
  · exact sendReset_rxBuf s a
  · split
    · rfl
    · cases a.tx <;> rfl

@[simp] theorem announced_rxBuf (s : SaharaClient) (a : SaharaAnswers) : (s.announced a).1.rxBuf = s.rxBuf := by
  rw [announced]
  dsimp only
  split
  · exact sendReset_rxBuf _ a
  · split
    · dsimp only
      split <;> rfl
    · rfl

/-- What a round that goes on has written; it does not make the blocks larger. -/
theorem regionBody_writes {i : Nat} {e : DebugType} {is64 : Bool} {r r' : Region} {a : SaharaAnswers}
    {events : List SaharaEvent} (h : regionBody i e is64 r a = (some r', events)) :
    a.tx = true ∧ applyWrites r.rxBuf (saharaRxDataWrites (requestLen e r) r.rxBuf a.rx) = r'.rxBuf ∧
      r'.maxRamDumpRead ≤ r.maxRamDumpRead := by
  rw [regionBody] at h
  dsimp only at h
  split at h
  · cases h
  · next htx =>
      refine ⟨by simpa using htx, ?_⟩
      rw [applyWrites_saharaRxDataWrites]
      cases hrx : saharaRxData (requestLen e r) r.rxBuf a.rx with
      | mk data rxBuf =>
          rw [hrx] at h
          cases data with
          | none =>
              dsimp only at h
              split at h
              · cases h
                exact ⟨rfl, Nat.div_le_self _ _⟩
              · cases h
          | some data =>
              dsimp only at h
              split at h
              · cases h
              · cases h
                exact ⟨rfl, Nat.le_refl _⟩

/-- The bytes of the first packet stay where the next one does not come. -/
theorem waitOne_rxBuf (cfg : SaharaConfig) (s : SaharaClient) (a : SaharaAnswers) :
    (waitOne cfg s a).1.rxBuf =
      if (saharaRxPacket s.rxBuf a.rx).1 ∨ a.wakeUp = false then (saharaRxPacket s.rxBuf a.rx).2
      else (saharaRxPacket (saharaRxPacket s.rxBuf a.rx).2 a.rxAgain).2 := by
  rw [waitOne]
  dsimp only
  cases hfirst : (saharaRxPacket s.rxBuf a.rx).1 with
  | true => rw [if_pos rfl, if_pos (Or.inl rfl), prepend_fst, greet_rxBuf]
  | false =>
      cases hwake : a.wakeUp with
      | false =>
          rw [if_neg Bool.false_ne_true, if_pos rfl, if_pos (Or.inr rfl)]
          rfl
      | true =>
          have hneither : ¬ (false = true ∨ true = false) := by simp
          rw [if_neg Bool.false_ne_true, if_neg hneither, if_neg (Bool.noConfusion : ¬ true = false)]
          split
          · rw [prepend_fst, greet_rxBuf]
          · rfl

theorem waitTwo_rxBuf (s : SaharaClient) (a : SaharaAnswers) :
    (waitTwo s a).1.rxBuf = (saharaRxPacket s.rxBuf a.rx).2 := by
  rw [waitTwo]
  split
  · rfl
  · rw [prepend_fst]
    split
    · rw [announced_rxBuf]
    · split
      · rfl
      · rw [sendReset_rxBuf]

theorem waitThree_rxBuf (s : SaharaClient) (a : SaharaAnswers) :
    (waitThree s a).1.rxBuf = (saharaRxPacket s.rxBuf a.rx).2 := by
  rw [waitThree]
  split
  · dsimp only
    split <;> rfl
  · rfl

theorem waitSeven_rxBuf (s : SaharaClient) (a : SaharaAnswers) :
    (waitSeven s a).1.rxBuf =
      if s.memoryTableLength = 0 then s.rxBuf else (saharaRxData s.memoryTableLength s.rxBuf a.rx).2 := by
  rw [waitSeven]
  split
  · rfl
  · cases saharaRxData s.memoryTableLength s.rxBuf a.rx with
    | mk data rxBuf =>
        cases data with
        | none => rfl
        | some data =>
            dsimp only
            split <;> rfl

/-- The writes, made one after another, give the buffer of the next state; once the client has returned there is no
buffer any more. -/
theorem applyWrites_rxWrites (cfg : SaharaConfig) (s : SaharaClient) (a : SaharaAnswers)
    (hresult : (step cfg s a).1.result = none) :
    applyWrites s.rxBuf (s.rxWrites a) = (step cfg s a).1.rxBuf := by
  rw [rxWrites]
  rw [step] at hresult ⊢
  cases hr : s.result with
  | some r => rfl
  | none =>
      rw [hr] at hresult
      dsimp only at hresult ⊢
      cases hstate : s.state with
      | waitOne =>
          dsimp only
          rw [waitOne_rxBuf]
          split
          · rw [applyWrites_saharaRxPacketWrites]
          · rw [applyWrites_append, applyWrites_saharaRxPacketWrites, applyWrites_saharaRxPacketWrites]
      | waitTwo =>
          dsimp only
          rw [waitTwo_rxBuf, applyWrites_saharaRxPacketWrites]
      | waitThree =>
          dsimp only
          rw [waitThree_rxBuf, applyWrites_saharaRxPacketWrites]
      | waitSeven =>
          dsimp only
          rw [waitSeven_rxBuf]
          split
          · rfl
          · rw [applyWrites_saharaRxDataWrites]
      | waitEight =>
          rw [hstate] at hresult
          dsimp only at hresult ⊢
          rw [waitEight] at hresult ⊢
          cases hentry : s.memoryTable[s.i]? with
          | none =>
              dsimp only
              split
              · rw [sendReset_rxBuf]
                rfl
              · rfl
          | some e =>
              rw [hentry] at hresult
              dsimp only at hresult ⊢
              cases hcur : s.cur with
              | none =>
                  dsimp only
                  split <;> rfl
              | some cur =>
                  rw [hcur] at hresult
                  dsimp only at hresult ⊢
                  by_cases hmore : cur < e.len
                  · rw [if_pos hmore] at hresult ⊢
                    cases hbody : regionBody s.i e s.ramDump64bit ⟨s.rxBuf, s.maxRamDumpRead, cur⟩ a with
                    | mk r events =>
                        rw [hbody] at hresult
                        cases r with
                        | none => cases hresult
                        | some r =>
                            obtain ⟨htx, hwrites, -⟩ := regionBody_writes hbody
                            rw [if_pos ⟨hmore, htx⟩]
                            exact hwrites
                  · rw [if_neg hmore, if_neg (fun h => hmore h.1)]
                    rfl
      | waitFour => rfl
      | waitFive => rfl
      | waitSix => rfl

/-! ## Bounds -/

/-- What bounds the writes: the size of a block, and the length of the table while it is awaited. -/
structure SizesOk (s : SaharaClient) : Prop where
  max_le : s.maxRamDumpRead ≤ qSaharaRawBufSz
  table_le : s.state = .waitSeven → s.memoryTableLength ≤ qSaharaRawBufSz

theorem inBounds_rxWrites {s : SaharaClient} (h : SizesOk s) (a : SaharaAnswers) :
    ∀ w ∈ s.rxWrites a, w.InBounds qSaharaRawBufSz := by
  rw [rxWrites]
  cases s.result with
  | some r => exact List.forall_mem_nil _
  | none =>
      cases hstate : s.state with
      | waitOne =>
          dsimp only
          split
          · exact inBounds_saharaRxPacketWrites _ _
          · exact List.forall_mem_append.mpr
              ⟨inBounds_saharaRxPacketWrites _ _, inBounds_saharaRxPacketWrites _ _⟩
      | waitTwo => exact inBounds_saharaRxPacketWrites _ _
      | waitThree => exact inBounds_saharaRxPacketWrites _ _
      | waitSeven =>
          dsimp only
          split
          · exact List.forall_mem_nil _
          · exact inBounds_saharaRxDataWrites (h.table_le hstate) _ _
      | waitEight =>
          dsimp only
          split
          · split
            · exact inBounds_saharaRxDataWrites ((Nat.min_le_right _ _).trans h.max_le) _ _
            · exact List.forall_mem_nil _
          · exact List.forall_mem_nil _
      | waitFour => exact List.forall_mem_nil _
      | waitFive => exact List.forall_mem_nil _
      | waitSix => exact List.forall_mem_nil _

theorem inBounds_miscWrites {s : SaharaClient} (h : SizesOk s) (a : SaharaAnswers) :
    ∀ w ∈ s.miscWrites a, w.InBounds qSaharaRawBufSz := by
  rw [miscWrites]
  split
  · next hseven =>
      split
      · exact List.forall_mem_nil _
      · split
        · exact List.forall_mem_nil _
        · next hconv =>
            refine inBounds_tableWrites (h.table_le hseven.2.1) _ fun his64 => ?_
            rw [not_and, Nat.not_lt] at hconv
            exact hconv his64
  · exact List.forall_mem_nil _

/-- A step that leaves the sizes alone and does not go on to await the table. -/
theorem SizesOk.of_eq {s s' : SaharaClient} (h : SizesOk s) (hmax : s'.maxRamDumpRead = s.maxRamDumpRead)
    (hstate : s'.state ≠ .waitSeven ∨ s'.state = s.state ∧ s'.memoryTableLength = s.memoryTableLength) :
    SizesOk s' := by
  refine ⟨hmax.trans_le h.max_le, fun hseven => ?_⟩
  rcases hstate with hne | ⟨hstate, hlength⟩
  · exact absurd hseven hne
  · rw [hlength]
    exact h.table_le (hstate.symm.trans hseven)

section Steps

variable {cfg : SaharaConfig} {s : SaharaClient}

theorem SizesOk.finish (h : SizesOk s) (r : SaharaResult) : SizesOk (s.finish r) :=
  h.of_eq rfl (Or.inr ⟨rfl, rfl⟩)

theorem SizesOk.received (h : SizesOk s) (rxBuf : List UInt8) : SizesOk { s with rxBuf := rxBuf } :=
  h.of_eq rfl (Or.inr ⟨rfl, rfl⟩)

theorem SizesOk.sendReset (h : SizesOk s) (a : SaharaAnswers) : SizesOk (s.sendReset a).1 := by
  rw [SaharaClient.sendReset]
  cases a.tx with
  | false => exact h.finish _
  | true => exact h.of_eq rfl (Or.inl (by simp))

theorem SizesOk.greet (h : SizesOk s) (a : SaharaAnswers) : SizesOk (s.greet cfg a).1 := by
  rw [SaharaClient.greet]
  split
  · exact h.sendReset a
  · split
    · exact h.finish _
    · cases a.tx with
      | false => exact h.finish _
      | true => exact h.of_eq rfl (Or.inl (by simp))

/-- The length of an announced table is compared with the size of the buffers. -/
theorem SizesOk.announced (h : SizesOk s) (hstate : s.state ≠ .waitSeven) (a : SaharaAnswers) :
    SizesOk (s.announced a).1 := by
  rw [SaharaClient.announced]
  dsimp only
  split
  · refine SizesOk.sendReset ?_ a
    exact h.of_eq rfl (Or.inl hstate)
  · split
    · dsimp only
      split
      · exact h.of_eq rfl (Or.inl hstate)
      · next hsize =>
          rw [not_or, Nat.not_lt] at hsize
          exact ⟨h.max_le, fun _ => hsize.2⟩
    · next hzero =>
        refine ⟨h.max_le, fun _ => ?_⟩
        show announcedLength s.rxBuf ≤ qSaharaRawBufSz
        omega

theorem SizesOk.waitOne (h : SizesOk s) (a : SaharaAnswers) : SizesOk (s.waitOne cfg a).1 := by
  rw [SaharaClient.waitOne]
  dsimp only
  split
  · exact (h.received _).greet a
  · split
    · exact (h.received _).finish _
    · split
      · exact (h.received _).greet a
      · exact (h.received _).finish _

theorem SizesOk.waitTwo (h : SizesOk s) (hstate : s.state = .waitTwo) (a : SaharaAnswers) :
    SizesOk (s.waitTwo a).1 := by
  rw [SaharaClient.waitTwo]
  split
  · exact (h.received _).finish _
  · rw [prepend_fst]
    split
    · exact (h.received _).announced (by rw [hstate]; simp) a
    · split
      · exact h.received _
      · exact (h.received _).sendReset a

theorem SizesOk.waitThree (h : SizesOk s) (a : SaharaAnswers) : SizesOk (s.waitThree a).1 := by
  rw [SaharaClient.waitThree]
  split
  · dsimp only
    split
    · exact h.received _
    · exact (h.received _).finish _
  · exact (h.received _).finish _

theorem SizesOk.waitSeven (h : SizesOk s) (a : SaharaAnswers) : SizesOk (s.waitSeven a).1 := by
  rw [SaharaClient.waitSeven]
  split
  · exact h.of_eq rfl (Or.inl (by simp))
  · split
    · exact (h.received _).finish _
    · split
      · exact (h.received _).finish _
      · exact h.of_eq rfl (Or.inl (by simp))

theorem SizesOk.waitEight (h : SizesOk s) (hstate : s.state = .waitEight) (a : SaharaAnswers) :
    SizesOk (s.waitEight cfg a).1 := by
  rw [SaharaClient.waitEight]
  split
  · split
    · exact h.sendReset a
    · exact h.finish _
  · split
    · split
      · exact h.of_eq rfl (Or.inr ⟨rfl, rfl⟩)
      · exact h.finish _
    · split
      · split
        · exact h.finish _
        · next r events hbody =>
            refine ⟨?_, fun hseven => absurd (hstate.symm.trans hseven) (by simp)⟩
            exact (regionBody_writes hbody).2.2.trans h.max_le
      · exact h.of_eq rfl (Or.inr ⟨rfl, rfl⟩)

/-- Every step keeps the sizes. -/
theorem SizesOk.step (h : SizesOk s) (a : SaharaAnswers) : SizesOk (s.step cfg a).1 := by
  rw [SaharaClient.step]
  cases s.result with
  | some r => exact h
  | none =>
      cases hstate : s.state with
      | waitOne => exact h.waitOne a
      | waitTwo => exact h.waitTwo hstate a
      | waitThree => exact h.waitThree a
      | waitSeven => exact h.waitSeven a
      | waitEight => exact h.waitEight hstate a
      | waitFour => exact h.finish _
      | waitFive => exact h.finish _
      | waitSix => exact h.finish _

end Steps

end SaharaClient

/-! ## Runs -/

/-- A write to one of the buffers. -/
inductive SaharaWrite
  | rx (w : Write UInt8)
  | misc (w : Write UInt8)

/-- The write ends within `Q_SAHARA_RAW_BUF_SZ` bytes of the start of its buffer. -/
def SaharaWrite.InBounds : SaharaWrite → Prop
  | .rx w => w.InBounds qSaharaRawBufSz
  | .misc w => w.InBounds qSaharaRawBufSz

/-- A step of the client, with what it writes. -/
def writeStep (cfg : SaharaConfig) (s : SaharaClient) (a : SaharaAnswers) : SaharaClient × List SaharaWrite :=
  ((s.step cfg a).1, (s.rxWrites a).map .rx ++ (s.miscWrites a).map .misc)

/-- One call of `sahara_read_dump`: its buffers are allocated, and hold anything. -/
structure SaharaCall where
  cfg : SaharaConfig
  rxBuf : List UInt8
  answers : List SaharaAnswers

/-- What the calls write, one call after another; `q_max_ram_dump_read` and `q_ram_dump_64bit` stay as the call before
has left them. -/
def callWrites : Nat → Bool → List SaharaCall → List SaharaWrite
  | _, _, [] => []
  | maxRamDumpRead, ramDump64bit, call :: calls =>
      let r := runSteps (writeStep call.cfg) (SaharaClient.start call.rxBuf maxRamDumpRead ramDump64bit) call.answers
      r.2 ++ callWrites r.1.maxRamDumpRead r.1.ramDump64bit calls

theorem writeStep_inBounds (cfg : SaharaConfig) (s : SaharaClient) (t : List SaharaWrite) (a : SaharaAnswers)
    (h : s.SizesOk ∧ ∀ w ∈ t, w.InBounds) :
    (writeStep cfg s a).1.SizesOk ∧ ∀ w ∈ t ++ (writeStep cfg s a).2, w.InBounds := by
  refine ⟨h.1.step a, List.forall_mem_append.mpr ⟨h.2, List.forall_mem_append.mpr ⟨?_, ?_⟩⟩⟩
  · exact List.forall_mem_map.mpr (SaharaClient.inBounds_rxWrites h.1 a)
  · exact List.forall_mem_map.mpr (SaharaClient.inBounds_miscWrites h.1 a)

theorem callWrites_inBounds (calls : List SaharaCall) {maxRamDumpRead : Nat} (hmax : maxRamDumpRead ≤ qSaharaRawBufSz)
    (ramDump64bit : Bool) : ∀ w ∈ callWrites maxRamDumpRead ramDump64bit calls, w.InBounds := by
  induction calls generalizing maxRamDumpRead ramDump64bit with
  | nil => exact List.forall_mem_nil _
  | cons call calls ih =>
      have hstart : (SaharaClient.start call.rxBuf maxRamDumpRead ramDump64bit).SizesOk ∧
          ∀ w ∈ ([] : List SaharaWrite), w.InBounds :=
        ⟨⟨hmax, fun hseven => by cases hseven⟩, List.forall_mem_nil _⟩
      obtain ⟨hsizes, hbounds⟩ := runSteps_history (writeStep_inBounds call.cfg) call.answers hstart
      exact List.forall_mem_append.mpr ⟨hbounds, ih hsizes.max_le _⟩

/-- **The Sahara buffers are never overrun**: whatever the device sends, in every call after any others, each write to
`q_rx_buf` and to `q_misc_buf` ends within them. `q_max_ram_dump_read` is `Q_SAHARA_RAW_BUF_SZ` at first. -/
theorem saharaWrites_inBounds (calls : List SaharaCall) :
    ∀ w ∈ callWrites qSaharaRawBufSz false calls, w.InBounds :=
  callWrites_inBounds calls (Nat.le_refl _) false

/-- A device that sends a hello of eight bytes, and nothing more. -/
def helloCall : SaharaCall where
  cfg := ⟨2, false⟩
  rxBuf := List.replicate qSaharaRawBufSz 0
  answers := [⟨[some [0x01, 0, 0, 0, 8, 0, 0, 0]], [], true, true, true, 0⟩]

/-- The hello goes to the front of `q_rx_buf`. -/
theorem saharaWrites_inBounds_hello : (SaharaWrite.rx ⟨0, [0x01, 0, 0, 0, 8, 0, 0, 0]⟩).InBounds :=
  saharaWrites_inBounds [helloCall] _ (List.mem_cons_of_mem _ List.mem_cons_self)

end QLog
