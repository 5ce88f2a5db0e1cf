import QLog.Cache.Integrity

/-! # Saving to a log file

`qlog_logfile_save` reports success for bytes that are only cached, and for a chunk that a full cache dropped;
`qlog_logfile_close` frees the cache without writing it. What a log descriptor has accepted when it is closed
is therefore what was saved, less what was dropped and less what is still cached. -/

namespace QLog

open Library Kfifo KfifoTable

/-- What one save meets: the environment of the cache, and how many bytes the write with a timeout accepts
where the descriptor has no cache. -/
structure SaveEnv where
  cache : WriteEnv
  poll : Nat

/-- A call of `qlog_logfile_save`: what the descriptor accepted, what was dropped, and the result. -/
structure Saved where
  fd : Int
  buf : List UInt8
  sent : List UInt8
  dropped : Nat
  ret : Nat

/-- The part of the buffer that is not dropped. -/
def Saved.kept (s : Saved) : List UInt8 := s.buf.take (s.buf.length - s.dropped)

/-- `kfifo_write`: the size of the chunk is the result of a success. -/
def kfifoWriteRet (w : KfifoWritten) (size : Nat) : Nat := if w.ok then size else 0

/-- `qlog_logfile_save` -/
def qlogLogfileSave (t : KfifoTable) (logfd : Int) (buf : List UInt8) (env : SaveEnv) :
    KfifoTable × Saved :=
  match t.kfifoIdx logfd with
  | some i =>
      let w := (t i).kfifoWrite buf env.cache
      (t.write i buf env.cache, ⟨logfd, buf, w.sent, w.dropped, kfifoWriteRet w buf.length⟩)
  | none => (t, ⟨logfd, buf, buf.take env.poll, 0, min env.poll buf.length⟩)

/-- `qlog_logfile_close`, which also closes the second and the third log file. -/
def qlogLogfileClose (t : KfifoTable) (logfd secondLogfile thirdLogfile : Int) : KfifoTable :=
  let t₁ := t.kfifoFree (t.kfifoIdx logfd)
  let t₂ := t₁.kfifoFree (t₁.kfifoIdx secondLogfile)
  t₂.kfifoFree (t₂.kfifoIdx thirdLogfile)

/-- What happens to log files. A dump file is opened without a cache. -/
inductive LogOp
  | openFile (fd : Int) (isDump : Bool)
  | save (fd : Int) (buf : List UInt8) (env : SaveEnv)
  | close (logfd secondLogfile thirdLogfile : Int)

/-- Do one of them; a save is recorded. -/
def logStep (t : KfifoTable) : LogOp → KfifoTable × List Saved
  | .openFile fd isDump => (if isDump then t else (t.kfifoAlloc fd).1, [])
  | .save fd buf env => ((qlogLogfileSave t fd buf env).1, [(qlogLogfileSave t fd buf env).2])
  | .close logfd second third => (qlogLogfileClose t logfd second third, [])

/-- The saves to a descriptor in a run. -/
def savesTo (fd : Int) (out : List Saved) : List Saved := out.filter fun s => s.fd = fd

/-- The bytes a descriptor accepted in a run. -/
def acceptedOf (fd : Int) (out : List Saved) : List UInt8 := (savesTo fd out).flatMap Saved.sent

/-- The bytes cached for a descriptor. -/
def cached (t : KfifoTable) (fd : Int) : List UInt8 :=
  match t.kfifoIdx fd with
  | some i => (t i).pending
  | none => []

/-- The file of a descriptor stays open: its number is not given to another file, and it is not closed. -/
def LogOp.LeavesOpen (fd : Int) : LogOp → Prop
  | .openFile fd' _ => fd' ≠ fd
  | .save _ _ _ => True
  | .close logfd second third => logfd ≠ fd ∧ second ≠ fd ∧ third ≠ fd

/-- A save to the descriptor does not meet a full cache. -/
def LogOp.Fits (fd : Int) (t : KfifoTable) : LogOp → Prop
  | .save fd' buf env => fd' = fd → ∀ i, t.kfifoIdx fd = some i → ¬ (t i).Overflows buf env.cache
  | _ => True

/-! ## The slot of a descriptor -/

/-- The slot of a descriptor is found among the slots that hold it. -/
theorem find_congr {t t' : KfifoTable} {fd : Int} (h : ∀ i, (t' i).fd = fd ↔ (t i).fd = fd) :
    t'.find fd = t.find fd := by
  have hpred : (fun i => decide ((t' i).fd = fd)) = fun i => decide ((t i).fd = fd) := by
    funext i
    exact decide_eq_decide.mpr (h i)
  rw [find, find, hpred]

/-- A change of the table that concerns other descriptors only. -/
structure Apart (fd : Int) (t t' : KfifoTable) : Prop where
  holds : ∀ i, (t' i).fd = fd ↔ (t i).fd = fd
  same : ∀ i, (t i).fd = fd → t' i = t i

theorem Apart.refl (fd : Int) (t : KfifoTable) : Apart fd t t := ⟨fun _ => Iff.rfl, fun _ _ => rfl⟩

theorem Apart.trans {fd : Int} {t t' t'' : KfifoTable} (h : Apart fd t t') (h' : Apart fd t' t'') :
    Apart fd t t'' := by
  refine ⟨fun i => (h'.holds i).trans (h.holds i), fun i hi => ?_⟩
  rw [h'.same i ((h.holds i).mpr hi), h.same i hi]

/-- A slot that does not hold the descriptor gets a content that does not hold it either. -/
theorem apart_update {fd : Int} (t : KfifoTable) {i : Fin fifoNum} {f : Kfifo} (hi : (t i).fd ≠ fd)
    (hf : f.fd ≠ fd) : Apart fd t (Function.update t i f) := by
  constructor
  · intro j
    by_cases hj : j = i
    · subst hj
      rw [Function.update_self]
      exact iff_of_false hf hi
    · rw [Function.update_of_ne hj]
  · intro j hj
    have hne : j ≠ i := by
      rintro rfl
      exact hi hj
    exact Function.update_of_ne hne _ _

theorem Apart.kfifoIdx_eq {fd : Int} {t t' : KfifoTable} (h : Apart fd t t') :
    t'.kfifoIdx fd = t.kfifoIdx fd := by
  rw [kfifoIdx, kfifoIdx, find_congr h.holds]

theorem kfifoIdx_fd {t : KfifoTable} {fd : Int} {i : Fin fifoNum} (h : t.kfifoIdx fd = some i) :
    fd ≠ -1 ∧ (t i).fd = fd := by
  unfold kfifoIdx at h
  split_ifs at h with hfd
  exact ⟨hfd, find_fd h⟩

theorem Apart.cached_eq {fd : Int} {t t' : KfifoTable} (h : Apart fd t t') : cached t' fd = cached t fd := by
  unfold cached
  rw [h.kfifoIdx_eq]
  cases hidx : t.kfifoIdx fd with
  | none => rfl
  | some i =>
      show (t' i).pending = (t i).pending
      rw [h.same i (kfifoIdx_fd hidx).2]

theorem apart_kfifoAlloc {fd fd' : Int} (t : KfifoTable) (hfd : fd ≠ -1) (hne : fd' ≠ fd) :
    Apart fd t (t.kfifoAlloc fd').1 := by
  unfold kfifoAlloc
  split
  · exact Apart.refl fd t
  · split
    · exact Apart.refl fd t
    · rename_i i hi
      have hfree : (t i).fd ≠ fd := by
        rw [find_fd hi]
        exact hfd.symm
      exact apart_update t hfree hne

theorem apart_kfifoFree {fd fd' : Int} (t : KfifoTable) (hfd : fd ≠ -1) (hne : fd' ≠ fd) :
    Apart fd t (t.kfifoFree (t.kfifoIdx fd')) := by
  cases hidx : t.kfifoIdx fd' with
  | none => exact Apart.refl fd t
  | some i =>
      have hother : (t i).fd ≠ fd := by
        rw [(kfifoIdx_fd hidx).2]
        exact hne
      exact apart_update t hother hfd.symm

theorem apart_close {fd logfd second third : Int} (t : KfifoTable) (hfd : fd ≠ -1) (hlog : logfd ≠ fd)
    (hsecond : second ≠ fd) (hthird : third ≠ fd) :
    Apart fd t (qlogLogfileClose t logfd second third) :=
  ((apart_kfifoFree t hfd hlog).trans (apart_kfifoFree _ hfd hsecond)).trans
    (apart_kfifoFree _ hfd hthird)

theorem apart_save {fd fd' : Int} (t : KfifoTable) (hne : fd' ≠ fd) (buf : List UInt8) (env : SaveEnv) :
    Apart fd t (qlogLogfileSave t fd' buf env).1 := by
  unfold qlogLogfileSave
  cases hidx : t.kfifoIdx fd' with
  | none => exact Apart.refl fd t
  | some i =>
      have hother : (t i).fd ≠ fd := by
        rw [(kfifoIdx_fd hidx).2]
        exact hne
      refine apart_update t hother ?_
      rwa [kfifoWrite_fd]

theorem kfifoIdx_write {t : KfifoTable} {fd : Int} {i : Fin fifoNum} (h : t.kfifoIdx fd = some i)
    (buf : List UInt8) (env : WriteEnv) : (t.write i buf env).kfifoIdx fd = some i := by
  rw [← h, kfifoIdx, kfifoIdx]
  have hholds : ∀ j, (t.write i buf env j).fd = fd ↔ (t j).fd = fd := by
    intro j
    by_cases hj : j = i
    · subst hj
      rw [write_self, kfifoWrite_fd]
    · rw [write_of_ne hj]
  rw [find_congr hholds]

/-! ## One step, then every run -/

theorem savesTo_append (fd : Int) (as bs : List Saved) :
    savesTo fd (as ++ bs) = savesTo fd as ++ savesTo fd bs := List.filter_append ..

theorem acceptedOf_append (fd : Int) (as bs : List Saved) :
    acceptedOf fd (as ++ bs) = acceptedOf fd as ++ acceptedOf fd bs := by
  rw [acceptedOf, savesTo_append, List.flatMap_append, acceptedOf, acceptedOf]

theorem qlogLogfileSave_fd (t : KfifoTable) (fd : Int) (buf : List UInt8) (env : SaveEnv) :
    (qlogLogfileSave t fd buf env).2.fd = fd ∧ (qlogLogfileSave t fd buf env).2.buf = buf := by
  unfold qlogLogfileSave
  split <;> exact ⟨rfl, rfl⟩

theorem savesTo_save_self (t : KfifoTable) (fd : Int) (buf : List UInt8) (env : SaveEnv) :
    savesTo fd (logStep t (.save fd buf env)).2 = [(qlogLogfileSave t fd buf env).2] := by
  rw [savesTo, logStep, List.filter_singleton, (qlogLogfileSave_fd t fd buf env).1]
  simp

theorem savesTo_save_of_ne {fd fd' : Int} (hne : fd' ≠ fd) (t : KfifoTable) (buf : List UInt8)
    (env : SaveEnv) : savesTo fd (logStep t (.save fd' buf env)).2 = [] := by
  rw [savesTo, logStep, List.filter_singleton, (qlogLogfileSave_fd t fd' buf env).1]
  simp [hne]

theorem logStep_valid (t : KfifoTable) (op : LogOp) (ht : t.Valid) : Valid (logStep t op).1 := by
  cases op with
  | openFile fd isDump =>
      simp only [logStep]
      split
      · exact ht
      · exact kfifoAlloc_valid ht fd
  | save fd buf env =>
      simp only [logStep, qlogLogfileSave]
      split
      · exact ht.update _ (kfifoWrite_spec (ht _) buf env.cache).1
      · exact ht
  | close logfd second third =>
      exact kfifoFree_valid (kfifoFree_valid (kfifoFree_valid ht _) _) _

/-- A step that saves nothing to an open descriptor leaves its cached bytes. -/
theorem cached_logStep {t : KfifoTable} {fd : Int} (hfd : fd ≠ -1) {op : LogOp} (hop : op.LeavesOpen fd)
    (hnone : savesTo fd (logStep t op).2 = []) : cached (logStep t op).1 fd = cached t fd := by
  cases op with
  | openFile fd' isDump =>
      simp only [logStep]
      split
      · rfl
      · exact (apart_kfifoAlloc t hfd hop).cached_eq
  | save fd' buf env =>
      by_cases hne : fd' = fd
      · subst hne
        rw [savesTo_save_self] at hnone
        exact absurd hnone (List.cons_ne_nil _ _)
      · exact (apart_save t hne buf env).cached_eq
  | close logfd second third =>
      exact (apart_close t hfd hop.1 hop.2.1 hop.2.2).cached_eq

/-- A save that reports its full size adds what it keeps to what goes out and what is cached. -/
theorem save_spec {t : KfifoTable} (ht : t.Valid) {fd : Int} {buf : List UInt8} {env : SaveEnv}
    (hfull : (qlogLogfileSave t fd buf env).2.ret = buf.length) :
    (qlogLogfileSave t fd buf env).2.sent ++ cached (qlogLogfileSave t fd buf env).1 fd
      = cached t fd ++ (qlogLogfileSave t fd buf env).2.kept := by
  cases hidx : t.kfifoIdx fd with
  | none =>
      -- without a cache the full size means that everything went out
      simp only [qlogLogfileSave, hidx] at hfull
      simp only [qlogLogfileSave, hidx, cached, Saved.kept]
      rw [List.take_of_length_le (by omega), Nat.sub_zero, List.take_length, List.append_nil,
        List.nil_append]
  | some i =>
      simp only [qlogLogfileSave, hidx] at hfull
      simp only [qlogLogfileSave, hidx, cached, kfifoIdx_write hidx, write_self, Saved.kept]
      by_cases href : (t i).Refused buf env.cache
      · -- a refused chunk returns 0, its full size only if it is empty
        rw [kfifoWrite_refused href] at hfull ⊢
        have hbuf : buf = [] := List.length_eq_zero_iff.mp hfull.symm
        rw [hbuf, List.take_nil, List.append_nil, List.nil_append]
      · exact (kfifoWrite_spec (ht i) buf env.cache).2 href

/-- One step on which every save to an open descriptor reports its full size. -/
theorem logStep_accepted {t : KfifoTable} (ht : t.Valid) {fd : Int} (hfd : fd ≠ -1) {op : LogOp}
    (hop : op.LeavesOpen fd) (hfull : ∀ s ∈ savesTo fd (logStep t op).2, s.ret = s.buf.length) :
    acceptedOf fd (logStep t op).2 ++ cached (logStep t op).1 fd
      = cached t fd ++ (savesTo fd (logStep t op).2).flatMap Saved.kept := by
  by_cases hnone : savesTo fd (logStep t op).2 = []
  · rw [acceptedOf, cached_logStep hfd hop hnone, hnone, List.flatMap_nil, List.flatMap_nil,
      List.append_nil, List.nil_append]
  · -- only a save to this descriptor is recorded as one
    cases op with
    | openFile => exact absurd rfl hnone
    | close => exact absurd rfl hnone
    | save fd' buf env =>
        have hself : fd' = fd := by
          by_contra hne
          exact hnone (savesTo_save_of_ne hne t buf env)
        subst hself
        rw [savesTo_save_self] at hfull
        have hret := hfull _ List.mem_cons_self
        rw [(qlogLogfileSave_fd t fd' buf env).2] at hret
        rw [acceptedOf, savesTo_save_self, List.flatMap_singleton, List.flatMap_singleton]
        exact save_spec ht hret

theorem runSteps_logStep_accepted {t : KfifoTable} (ht : t.Valid) {fd : Int} (hfd : fd ≠ -1)
    (ops : List LogOp) (hops : ∀ op ∈ ops, op.LeavesOpen fd)
    (hfull : ∀ s ∈ savesTo fd (runSteps logStep t ops).2, s.ret = s.buf.length) :
    acceptedOf fd (runSteps logStep t ops).2 ++ cached (runSteps logStep t ops).1 fd
      = cached t fd ++ (savesTo fd (runSteps logStep t ops).2).flatMap Saved.kept := by
  induction ops generalizing t with
  | nil => exact (List.append_nil _).symm
  | cons op ops ih =>
      simp only [runSteps_cons, prepend_fst, prepend_snd, savesTo_append, acceptedOf_append,
        List.flatMap_append, List.append_assoc, List.mem_append] at hfull ⊢
      have hstep := logStep_accepted ht hfd (hops op List.mem_cons_self) fun s hs => hfull s (Or.inl hs)
      have hrest := ih (logStep_valid t op ht) (fun o ho => hops o (List.mem_cons_of_mem op ho))
        fun s hs => hfull s (Or.inr hs)
      rw [hrest, ← List.append_assoc, hstep, List.append_assoc]

/-- Where no save to a descriptor meets a full cache, every save keeps its whole buffer. -/
theorem kept_of_fits {t : KfifoTable} (ht : t.Valid) {fd : Int} (ops : List LogOp)
    (hfits : Along logStep (LogOp.Fits fd) t ops) :
    ∀ s ∈ savesTo fd (runSteps logStep t ops).2, s.kept = s.buf := by
  induction ops generalizing t with
  | nil => exact fun s hs => absurd hs List.not_mem_nil
  | cons op ops ih =>
      intro s hs
      rw [runSteps_cons, prepend_snd, savesTo_append, List.mem_append] at hs
      rcases hs with hs | hs
      · cases op with
        | openFile => exact absurd hs List.not_mem_nil
        | close => exact absurd hs List.not_mem_nil
        | save fd' buf env =>
            by_cases hne : fd' = fd
            · subst hne
              rw [savesTo_save_self, List.mem_singleton] at hs
              have hzero : s.dropped = 0 := by
                -- a drop is the sign of an overflow, which the hypothesis excludes
                rw [hs]
                unfold qlogLogfileSave
                split
                · rename_i i hidx
                  by_contra hdrop
                  exact hfits.1 rfl i hidx (overflows_of_kfifoWrite_dropped (ht i) hdrop)
                · rfl
              rw [Saved.kept, hzero, Nat.sub_zero, List.take_length]
            · rw [savesTo_save_of_ne hne] at hs
              exact absurd hs List.not_mem_nil
      · exact ih (logStep_valid t op ht) hfits.2 s hs

/-! ## What the descriptor has when it is closed -/

/-- Every byte of every buffer saved to a descriptor is accepted by it, in order, when it is closed. -/
def NoSilentLoss (t : KfifoTable) (ops : List LogOp) (logfd second third : Int) : Prop :=
  (∀ s ∈ savesTo logfd (runSteps logStep t ops).2, s.ret = s.buf.length) →
    acceptedOf logfd (runSteps logStep t (ops ++ [.close logfd second third])).2
      = (savesTo logfd (runSteps logStep t ops).2).flatMap Saved.buf

/-- A save of two bytes to a descriptor that accepts the first one and then nothing more. -/
def partialSave : LogOp := .save 7 [1, 2] ⟨⟨⟨1, 11⟩, some fun _ => 0, ⟨0, 11⟩⟩, 0⟩

/-- The second byte is reported as saved, cached, and gone when the file is closed. -/
theorem partialSave_lost :
    ¬ NoSilentLoss (runSteps logStep kfifoTable [.openFile 7 false]).1 [partialSave] 7 (-1) (-1) := by
  intro h
  have hret : ∀ s ∈ savesTo 7 (runSteps logStep (runSteps logStep kfifoTable [.openFile 7 false]).1
      [partialSave]).2, s.ret = s.buf.length := by decide
  exact absurd (h hret) (by decide)

/-- **What a log descriptor has accepted when it is closed**, for any run in which every save to it reported
its full size: followed by what is still cached, it is what was cached at the start followed by the saved
buffers, each less what a full cache dropped. Where no save meets a full cache nothing is dropped. -/
theorem qlogLogfile_accepted (before ops : List LogOp) (logfd second third : Int) (hopen : logfd ≠ -1)
    (hops : ∀ op ∈ ops, op.LeavesOpen logfd) :
    let t := (runSteps logStep kfifoTable before).1
    let r := runSteps logStep t ops
    let closed := runSteps logStep t (ops ++ [.close logfd second third])
    (∀ s ∈ savesTo logfd r.2, s.ret = s.buf.length) →
      acceptedOf logfd closed.2 ++ cached r.1 logfd
          = cached t logfd ++ (savesTo logfd r.2).flatMap Saved.kept ∧
        (Along logStep (LogOp.Fits logfd) t ops →
          acceptedOf logfd closed.2 ++ cached r.1 logfd
            = cached t logfd ++ (savesTo logfd r.2).flatMap Saved.buf) := by
  intro t r closed hfull
  have ht : t.Valid := runSteps_invariant logStep logStep_valid kfifoTable before kfifoTable_valid
  -- the close frees the cache and writes nothing
  have hclosed : acceptedOf logfd closed.2 = acceptedOf logfd r.2 := by
    rw [show closed = _ from runSteps_append logStep t ops _, prepend_snd, acceptedOf_append,
      runSteps_singleton]
    exact List.append_nil _
  have hall := runSteps_logStep_accepted ht hopen ops hops hfull
  rw [hclosed]
  refine ⟨hall, fun hfits => ?_⟩
  have hkept : (savesTo logfd r.2).flatMap Saved.kept = (savesTo logfd r.2).flatMap Saved.buf :=
    List.flatMap_congr (kept_of_fits ht ops hfits)
  rw [← hkept]
  exact hall

/-- The byte that the descriptor did not accept is still cached when the file is closed. -/
theorem qlogLogfile_accepted_partialSave :
    let t := (runSteps logStep kfifoTable [.openFile 7 false]).1
    acceptedOf 7 (runSteps logStep t [partialSave, .close 7 (-1) (-1)]).2
      ++ cached (runSteps logStep t [partialSave]).1 7 = [1, 2] := by
  intro t
  have hops : ∀ op ∈ [partialSave], op.LeavesOpen 7 := by
    intro op hop
    rw [List.mem_singleton] at hop
    rw [hop]
    trivial
  have h := (qlogLogfile_accepted [.openFile 7 false] [partialSave] 7 (-1) (-1) (by decide) hops
    (by decide)).1
  refine h.trans ?_
  decide

end QLog
