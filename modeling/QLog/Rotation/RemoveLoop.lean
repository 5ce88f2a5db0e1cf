import QLog.Library.Rounds
import QLog.Rotation.Compress

/-! # When the removals end

The loop of `checkWorkDirSize` goes on while the directory is too large and the queue is not empty. Both only change
when a file is removed: a name whose file is gone, or cannot be removed, stays at the front of the queue, and the next
round meets it again. So the loop ends if and only if it never comes to a point from which no removal succeeds any
more. -/

namespace QLog.Compress

open Library Rotation Cqueue

/-- A call of `remove_oldest_logfile` with these results removes a file. -/
def Removal.removes (r : Removal) : Bool :=
  match r.statZip, r.statFile with
  | some _, _ => r.removeZip
  | none, some _ => r.removeFile
  | none, none => false

/-- One of the calls that a round makes removes a file. -/
def Round.removes (cfg : LogConfig) (r : Round) : Bool :=
  r.first.removes || (cfg.secondLogfileSuffix.isSome && r.second.removes) ||
    (cfg.thirdLogfileSuffix.isSome && r.third.removes)

/-- A round, as a step of the queue and the total size. -/
def removeStep (cfg : LogConfig) (s : Queue Name × Int) (r : Round) : Queue Name × Int :=
  ((removeRound cfg s.1 s.2 r).1, (removeRound cfg s.1 s.2 r).2.1)

/-- The condition of the loop fails. -/
def LoopOver (maxSize : Int) (s : Queue Name × Int) : Prop := ¬ (maxSize ≤ s.2 ∧ isEmpty s.1 = false)

/-- The first `n` of the rounds that are to come. -/
def firstRounds (rounds : Nat → Round) (n : Nat) : List Round := (List.range n).map rounds

/-- `checkWorkDirSize` returns. -/
def CheckReturns (cfg : LogConfig) (maxSize : Int) (queue : Queue Name) (scan : Option (List DirEntry))
    (rounds : Nat → Round) : Prop :=
  ∃ n, (checkWorkDirSize cfg maxSize queue scan (firstRounds rounds n)).isSome

/-- The queue and the total size in front of the loop. -/
def loopStart (cfg : LogConfig) (queue : Queue Name) (entries : List DirEntry) : Queue Name × Int :=
  let listed := entries.filter filterLogfile
  (if isEmpty queue then (enqueueAll queue (listed.map (entryName cfg.logfileDir))).1 else queue, workDirSize listed)

/-- The loop gets as far as its test behind `n` rounds, and the test succeeds. -/
def LoopGoing (cfg : LogConfig) (maxSize : Int) (start : Queue Name × Int) (rounds : Nat → Round) (n : Nat) : Prop :=
  ∀ k ≤ n, ¬ LoopOver maxSize (afterRounds (removeStep cfg) rounds start k)

theorem firstRounds_succ (rounds : Nat → Round) (n : Nat) :
    firstRounds rounds (n + 1) = rounds 0 :: firstRounds (fun k => rounds (k + 1)) n := by
  simp [firstRounds, List.range_succ_eq_map, Function.comp_def]

section Loop

variable {cfg : LogConfig} {maxSize totalSize : Int} {queue : Queue Name} {names : List Name}

/-- The loop has not ended after `n` rounds exactly if its condition has held before each of them, and holds still. -/
theorem removeLoop_eq_none (rounds : Nat → Round) (n : Nat) :
    removeLoop cfg maxSize queue totalSize (firstRounds rounds n) = none ↔
      LoopGoing cfg maxSize (queue, totalSize) rounds n := by
  unfold LoopGoing
  induction n generalizing queue totalSize rounds with
  | zero =>
      simp only [Nat.le_zero_eq, forall_eq, afterRounds_zero, LoopOver, not_not]
      show (if _ then _ else _) = none ↔ _
      split <;> simp_all
  | succ n ih =>
      rw [firstRounds_succ, removeLoop]
      by_cases hgoing : maxSize ≤ totalSize ∧ isEmpty queue = false
      · rw [if_pos hgoing]
        dsimp only
        rw [Option.map_eq_none_iff, ih]
        constructor
        · intro h k hk
          cases k with
          | zero => exact not_not_intro hgoing
          | succ k =>
              rw [afterRounds_succ']
              exact h k (Nat.le_of_succ_le_succ hk)
        · intro h k hk
          have hnext := h (k + 1) (Nat.succ_le_succ hk)
          rwa [afterRounds_succ'] at hnext
      · rw [if_neg hgoing]
        refine iff_of_false (by simp) fun h => ?_
        exact h 0 (Nat.zero_le _) hgoing

/-- A call that removes takes the front out of the queue, any other one changes nothing. -/
theorem removeOldestLogfile_removes (h : Holds queue names) (hne : names ≠ []) (totalSize : Int) {r : Removal}
    (hr : r.removes = true) : Holds (removeOldestLogfile queue totalSize r).1 names.tail := by
  obtain ⟨name, rest, rfl⟩ := List.exists_cons_of_ne_nil hne
  rw [removeOldestLogfile, h.peek]
  rw [Removal.removes] at hr
  cases hzip : r.statZip with
  | some stSize =>
      rw [hzip] at hr
      simpa [hzip, removeAndDequeue, hr] using h.dequeue.1
  | none =>
      rw [hzip] at hr
      cases hfile : r.statFile with
      | some stSize =>
          rw [hfile] at hr
          simpa [hzip, hfile, removeAndDequeue, hr] using h.dequeue.1
      | none =>
          rw [hfile] at hr
          cases hr

theorem removeOldestLogfile_idle (h : Holds queue names) (totalSize : Int) {r : Removal} (hr : r.removes = false) :
    removeOldestLogfile queue totalSize r = (queue, totalSize, []) := by
  rw [removeOldestLogfile, h.peek]
  rw [Removal.removes] at hr
  cases names with
  | nil => rfl
  | cons name rest =>
      cases hzip : r.statZip with
      | some stSize =>
          rw [hzip] at hr
          simp [removeAndDequeue, hr]
      | none =>
          rw [hzip] at hr
          cases hfile : r.statFile with
          | some stSize =>
              rw [hfile] at hr
              simp [removeAndDequeue, hr]
          | none => rfl

/-- One of the further calls of a round. -/
theorem removeNext_cases (h : Holds queue names) (suffix : Option Name) (totalSize : Int) (r : Removal) :
    (suffix.isSome = true ∧ r.removes = true ∧ names ≠ [] ∧ Holds (removeNext suffix queue totalSize r).1 names.tail) ∨
      ((names = [] ∨ (suffix.isSome && r.removes) = false) ∧
        removeNext suffix queue totalSize r = (queue, totalSize, [])) := by
  rw [removeNext]
  cases suffix with
  | none => exact Or.inr ⟨Or.inr rfl, rfl⟩
  | some suffix =>
      by_cases hnil : names = []
      · have hempty : isEmpty queue = true := h.isEmpty.mpr hnil
        exact Or.inr ⟨Or.inl hnil, by simp [hempty]⟩
      · have hfull : isEmpty queue = false := by
          rw [← Bool.not_eq_true, h.isEmpty]
          exact hnil
        simp only [hfull, Option.isSome_some, Bool.not_false, Bool.and_self, if_true, Bool.true_and, true_and]
        cases hr : r.removes with
        | true => exact Or.inl ⟨rfl, hnil, removeOldestLogfile_removes h hnil totalSize hr⟩
        | false => exact Or.inr ⟨Or.inr rfl, removeOldestLogfile_idle h totalSize hr⟩

/-- A further call leaves no more names than before. -/
theorem removeNext_le (h : Holds queue names) (suffix : Option Name) (totalSize : Int) (r : Removal) :
    ∃ names', Holds (removeNext suffix queue totalSize r).1 names' ∧ names'.length ≤ names.length := by
  rcases removeNext_cases h suffix totalSize r with ⟨-, -, -, hq⟩ | ⟨-, hsame⟩
  · exact ⟨names.tail, hq, by simp⟩
  · exact ⟨names, by rwa [hsame], Nat.le_refl _⟩

/-- A round in which a removal succeeds makes the queue shorter. -/
theorem removeStep_works (h : Holds queue names) (hne : names ≠ []) {r : Round} (hr : r.removes cfg = true) :
    ∃ names', Holds (removeStep cfg (queue, totalSize) r).1 names' ∧ names'.length < names.length := by
  have hpos : 0 < names.length := List.length_pos_iff.mpr hne
  cases hfirst : r.first.removes with
  | true =>
      have h1 := removeOldestLogfile_removes h hne totalSize hfirst
      obtain ⟨names2, h2, hle2⟩ := removeNext_le h1 cfg.secondLogfileSuffix
        (removeOldestLogfile queue totalSize r.first).2.1 r.second
      obtain ⟨names3, h3, hle3⟩ := removeNext_le h2 cfg.thirdLogfileSuffix _ r.third
      rw [List.length_tail] at hle2
      exact ⟨names3, h3, by omega⟩
  | false =>
      rw [Round.removes, hfirst, Bool.false_or, Bool.or_eq_true] at hr
      have h1 := removeOldestLogfile_idle h totalSize hfirst
      rw [removeStep, removeRound, h1]
      dsimp only
      -- the queue is as it was when the second call looks at it
      rcases removeNext_cases h cfg.secondLogfileSuffix totalSize r.second with ⟨-, -, -, h2⟩ | ⟨hidle, h2⟩
      · obtain ⟨names3, h3, hle3⟩ := removeNext_le h2 cfg.thirdLogfileSuffix _ r.third
        rw [List.length_tail] at hle3
        exact ⟨names3, h3, by omega⟩
      · rw [h2]
        rcases removeNext_cases h cfg.thirdLogfileSuffix totalSize r.third with ⟨-, -, -, h3⟩ | ⟨hidle', -⟩
        · exact ⟨names.tail, h3, by rw [List.length_tail]; omega⟩
        · have hsecond := hidle.resolve_left hne
          have hthird := hidle'.resolve_left hne
          rw [hsecond, hthird] at hr
          rcases hr with hr | hr <;> cases hr

/-- A round in which no removal succeeds changes nothing. -/
theorem removeStep_idle (h : Holds queue names) {r : Round} (hr : r.removes cfg = false) :
    removeStep cfg (queue, totalSize) r = (queue, totalSize) := by
  rw [Round.removes, Bool.or_eq_false_iff, Bool.or_eq_false_iff] at hr
  obtain ⟨⟨hfirst, hsecond⟩, hthird⟩ := hr
  have hnext : ∀ (suffix : Option Name) (r : Removal), (suffix.isSome && r.removes) = false →
      removeNext suffix queue totalSize r = (queue, totalSize, []) := by
    intro suffix r hidle
    rcases removeNext_cases h suffix totalSize r with ⟨hsuffix, hremoves, -⟩ | ⟨-, hsame⟩
    · rw [hsuffix, hremoves] at hidle
      cases hidle
    · exact hsame
  rw [removeStep, removeRound, removeOldestLogfile_idle h totalSize hfirst]
  dsimp only
  rw [hnext _ _ hsecond]
  dsimp only
  rw [hnext _ _ hthird]

/-- **When the loop ends.** -/
theorem removeLoop_ends_iff (h : Holds queue names) (rounds : Nat → Round) :
    (∃ n, (removeLoop cfg maxSize queue totalSize (firstRounds rounds n)).isSome) ↔
      ∀ n, LoopGoing cfg maxSize (queue, totalSize) rounds n → ∃ m, n ≤ m ∧ (rounds m).removes cfg = true := by
  have hends : (∃ n, (removeLoop cfg maxSize queue totalSize (firstRounds rounds n)).isSome) ↔
      Ends (removeStep cfg) (LoopOver maxSize) rounds (queue, totalSize) := by
    constructor
    · rintro ⟨n, hn⟩
      by_contra hnever
      have hnone : removeLoop cfg maxSize queue totalSize (firstRounds rounds n) = none :=
        (removeLoop_eq_none rounds n).mpr fun k _ hk => hnever ⟨k, hk⟩
      rw [hnone] at hn
      cases hn
    · rintro ⟨n, hn⟩
      refine ⟨n, Option.isSome_iff_ne_none.mpr fun hnone => ?_⟩
      exact (removeLoop_eq_none rounds n).mp hnone n (Nat.le_refl n) hn
  let inv : Queue Name × Int → Nat → Prop := fun s b => ∃ names, Holds s.1 names ∧ names.length = b
  let idle : Round → Prop := fun r => r.removes cfg = false
  have hidle : ∀ s r b, inv s b → ¬ LoopOver maxSize s → idle r → removeStep cfg s r = s := by
    rintro ⟨queue, totalSize⟩ r b ⟨names, hnames, -⟩ - hr
    exact removeStep_idle hnames hr
  have hwork : ∀ s r b, inv s b → ¬ LoopOver maxSize s → ¬ idle r → ∃ b' < b, inv (removeStep cfg s r) b' := by
    rintro ⟨queue, totalSize⟩ r b ⟨names, hnames, rfl⟩ hgoing hr
    have hne : names ≠ [] := by
      rintro rfl
      refine hgoing fun hloop => ?_
      exact absurd (hnames.isEmpty.mpr rfl) (by rw [hloop.2]; exact Bool.noConfusion)
    obtain ⟨names', hnames', hlt⟩ := removeStep_works hnames hne (Bool.eq_true_of_not_eq_false hr)
    exact ⟨names'.length, hlt, names', hnames', rfl⟩
  rw [hends, ends_iff_works hidle hwork ⟨names, h, rfl⟩]
  simp only [LoopGoing, idle, Bool.not_eq_false]

end Loop

/-- **When enforcing the limit ends**: exactly if the loop never comes to a point, with the directory too large and
names in the queue, from which no removal succeeds any more. -/
theorem checkWorkDirSize_returns_iff (cfg : LogConfig) (maxSize : Int) {queue : Queue Name} {names : List Name}
    (hqueue : Holds queue names) (scan : Option (List DirEntry)) (rounds : Nat → Round) :
    CheckReturns cfg maxSize queue scan rounds ↔
      ∀ entries ∈ scan, ∀ n, LoopGoing cfg maxSize (loopStart cfg queue entries) rounds n →
        ∃ m, n ≤ m ∧ (rounds m).removes cfg = true := by
  unfold CheckReturns checkWorkDirSize
  cases scan with
  | none => simp
  | some entries =>
      simp only [Option.mem_some_iff, forall_eq', loopStart]
      by_cases hempty : isEmpty queue = true
      · simp only [hempty, if_true, Option.isSome_map]
        exact removeLoop_ends_iff (enqueueAll_follows hqueue [] _).1 rounds
      · simp only [hempty, Bool.false_eq_true, if_false]
        exact removeLoop_ends_iff hqueue rounds

/-- Two files, one of them compressed, are removed one after the other. -/
theorem checkWorkDirSize_returns_twoFiles :
    CheckReturns dirConfig 1048576 (enqueueAll createQueue [['d', '/', 'a'], ['d', '/', 'b']]).1
      (some [⟨['a'], some 1048576⟩, ⟨['b', '.', 'z', 'i', 'p'], some 1048576⟩])
      (fun n => ⟨⟨if n = 0 then none else some 1048576, true, some 1048576, true⟩, ⟨none, false, none, false⟩,
        ⟨none, false, none, false⟩⟩) :=
  (checkWorkDirSize_returns_iff dirConfig 1048576 (enqueueAll_follows holds_createQueue [] _).1 _ _).mpr
    fun _ _ n _ => ⟨n + 1, Nat.le_succ n, rfl⟩

/-- A name in the queue whose file is gone is met for ever. -/
theorem not_checkWorkDirSize_returns :
    ¬ ∀ (cfg : LogConfig) (maxSize : Int) (queue : Queue Name) (names : List Name), Holds queue names →
      ∀ (scan : Option (List DirEntry)) (rounds : Nat → Round), CheckReturns cfg maxSize queue scan rounds := by
  intro h
  have hqueue : Holds (enqueueAll createQueue [['d', '/', 'a']]).1 [['d', '/', 'a']] :=
    (enqueueAll_follows holds_createQueue [] [['d', '/', 'a']]).1
  -- neither the file nor its archive is there, and another file is too large
  have hreturns := h dirConfig 1048576 _ _ hqueue (some [⟨['b'], some 2097152⟩])
    fun _ => ⟨⟨none, false, none, false⟩, ⟨none, false, none, false⟩, ⟨none, false, none, false⟩⟩
  have hloop : ∃ n, (removeLoop dirConfig 1048576 (enqueueAll createQueue [['d', '/', 'a']]).1 2097152
      (firstRounds (fun _ => ⟨⟨none, false, none, false⟩, ⟨none, false, none, false⟩,
        ⟨none, false, none, false⟩⟩) n)).isSome := hreturns
  have hstart : LoopGoing dirConfig 1048576 ((enqueueAll createQueue [['d', '/', 'a']]).1, 2097152)
      (fun _ => ⟨⟨none, false, none, false⟩, ⟨none, false, none, false⟩, ⟨none, false, none, false⟩⟩) 0 := by
    intro k hk
    obtain rfl : k = 0 := Nat.le_zero.mp hk
    exact not_not_intro ⟨by decide, by decide⟩
  obtain ⟨m, -, hm⟩ := (removeLoop_ends_iff hqueue _).mp hloop 0 hstart
  cases hm

end QLog.Compress
