import QLog.Ftpd.Limits

/-! # When the connection counts of the FTP server are exact

There are four ways for a child to end too early. It may be waited for before the loop has written down its address;
then its count stays behind for good. It may be waited for between the read and the store of the count of its address;
then the store undoes what the handler has counted. As the last child of an address it takes along the entry that
`handle_ip_count` has a pointer to. And the handler may run inside a function of the hash table.

As long as none of this happens, exactly the children that are there are written down, and every count is the number of
them. -/

namespace QLog.Ftpd

open Library

/-- Whether the loop has counted an address for a child that it has not made yet. -/
def unmade : Stage → Nat → Nat
  | .forking i, ip => if i = ip then 1 else 0
  | _, _ => 0

/-- The counts of the addresses are those of their children, and the one that is to be stored includes the child that
is to be made; as long as the server runs, and not beyond where its run has a meaning. -/
def Exact (s : Server) : Prop :=
  s.stage ≠ .undefined ∧ (s.stage = .exited ∨
    (∀ ip, countOf s.ipCount ip = childrenOf s ip + unmade s.stage ip) ∧
      ∀ ip count, s.stage = .storing ip count → count = childrenOf s ip + 1)

/-- At this stage it is too early for the child to end. -/
def TooEarly (s : Server) (child : Process) : Prop :=
  match s.stage with
  | .recording _ pid => child.pid = pid
  | .storing ip _ => child.ip = ip
  | .reading ip => child.ip = ip ∧ childrenOf s ip = 1
  | _ => False

/-- A child is waited for too early. -/
def Early (s : Server) (event : Event) : Prop :=
  ∃ child ∈ s.children, event = .reap child.pid ∧ TooEarly s child ∨
    event = .reapInside child.pid ∧ s.stage.inHash = true

/-- What is kept as long as no child ends early: exactly the children are written down. -/
structure Accurate (s : Server) : Prop where
  soundIp : Sound s.ipCount
  soundPid : Sound s.pidIp
  pids : (s.children.map (·.pid)).Nodup
  pidLt : ∀ child ∈ s.children, child.pid < 2 ^ 31
  exact : ∀ ip, countOf s.ipCount ip = childrenOf s ip + unmade s.stage ip
  written : ∀ pid ip, hashLookupEntry s.pidIp pid = some ip ↔
    s.stage ≠ .recording ip pid ∧ ∃ child ∈ s.children, child.pid = pid ∧ child.ip = ip
  recording : ∀ ip pid, s.stage = .recording ip pid → ∃ child ∈ s.children, child.pid = pid ∧ child.ip = ip
  absent : ∀ ip, s.stage = .absent ip → hashLookupEntry s.ipCount ip = none
  points : ∀ ip ∈ s.stage.pointsTo, hashLookupEntry s.ipCount ip ≠ none
  storing : ∀ ip count, s.stage = .storing ip count → count = childrenOf s ip + 1
  runs : s.stage ≠ .exited ∧ s.stage ≠ .undefined

section Accurate

variable {s : Server}

theorem accurate_serverInit : Accurate serverInit := by
  obtain ⟨hsound, hnone⟩ := sound_hashAlloc (ν := Nat) 256 hashFunc fun key => Nat.mod_lt key (by decide)
  refine ⟨hsound, hsound, List.nodup_nil, ?_, fun ip => ?_, fun pid ip => ?_, ?_, ?_, ?_, ?_, by decide⟩
  · exact fun _ hchild => absurd hchild List.not_mem_nil
  · show countOf countHash ip = 0
    rw [countOf, countHash, hnone, Option.getD_none]
  · constructor
    · exact fun hip => absurd ((hnone pid).symm.trans hip).symm (Option.some_ne_none ip)
    · rintro ⟨-, child, hchild, -⟩
      exact absurd hchild List.not_mem_nil
  · exact fun _ _ hstage => Stage.noConfusion hstage
  · exact fun _ hstage => Stage.noConfusion hstage
  · exact fun _ hip => absurd hip (Option.not_mem_none _)
  · exact fun _ _ hstage => Stage.noConfusion hstage

/-- Children have one address. -/
theorem Accurate.unique (h : Accurate s) {child other : Process} (hchild : child ∈ s.children)
    (hother : other ∈ s.children) (hpid : child.pid = other.pid) : child = other :=
  List.inj_on_of_nodup_map h.pids hchild hother hpid

theorem Accurate.childrenOf_lt (h : Accurate s) (ip : Nat) : childrenOf s ip + 1 < 2 ^ 32 := by
  have hall : childrenOf s ip ≤ s.children.length := List.countP_le_length
  have hlength := length_le_of_pids h.pids h.pidLt
  omega

/-- The loop goes on without touching the tables or making a child. -/
theorem Accurate.move (h : Accurate s) {s' : Server} (hchildren : s'.children = s.children)
    (hip : s'.ipCount = s.ipCount) (hpid : s'.pidIp = s.pidIp) (hstage : ∀ ip pid, s.stage ≠ .recording ip pid)
    (hstage' : ∀ ip pid, s'.stage ≠ .recording ip pid) (hunmade : ∀ ip, unmade s'.stage ip = unmade s.stage ip)
    (habsent : ∀ ip, s'.stage = .absent ip → hashLookupEntry s.ipCount ip = none)
    (hpoints : ∀ ip ∈ s'.stage.pointsTo, hashLookupEntry s.ipCount ip ≠ none)
    (hstoring : ∀ ip count, s'.stage = .storing ip count → count = childrenOf s ip + 1)
    (hruns : s'.stage ≠ .exited ∧ s'.stage ≠ .undefined) : Accurate s' := by
  refine ⟨hip ▸ h.soundIp, hpid ▸ h.soundPid, hchildren ▸ h.pids, hchildren ▸ h.pidLt, fun ip => ?_,
    fun pid ip => ?_, fun ip pid hrec => absurd hrec (hstage' ip pid), hip ▸ habsent, hip ▸ hpoints, fun ip count => ?_,
    hruns⟩
  · rw [hip, hunmade, childrenOf, hchildren]
    exact h.exact ip
  · rw [hpid, hchildren, h.written pid ip]
    exact and_congr_left' ⟨fun _ => hstage' ip pid, fun _ => hstage ip pid⟩
  · rw [childrenOf, hchildren]
    exact hstoring ip count

/-- The address of a connection is counted. -/
theorem Accurate.countStep (h : Accurate s) {ip : Nat} {hash : Hash Nat Nat}
    (hnot : ∀ i pid, s.stage ≠ .recording i pid) (hunmade : ∀ other, unmade s.stage other = 0) (hsound : Sound hash)
    (hcount : countOf hash = Function.update (countOf s.ipCount) ip (childrenOf s ip + 1)) (numThisIp : Nat) :
    Accurate { s with stage := .forking ip, ipCount := hash, numThisIp := numThisIp } := by
  refine ⟨hsound, h.soundPid, h.pids, h.pidLt, fun other => ?_, fun pid other => ?_,
    fun _ _ hrec => Stage.noConfusion hrec, fun _ hrec => Stage.noConfusion hrec,
    fun _ hip => absurd hip (Option.not_mem_none _), fun _ _ hrec => Stage.noConfusion hrec, by simp⟩
  · show countOf hash other = childrenOf s other + if ip = other then 1 else 0
    rw [hcount]
    rcases eq_or_ne other ip with rfl | hne
    · rw [Function.update_self, if_pos rfl]
    · rw [Function.update_of_ne hne, if_neg hne.symm, h.exact other, hunmade other]
  · rw [h.written pid other]
    exact and_congr_left' ⟨fun _ hrec => Stage.noConfusion hrec, fun _ => hnot other pid⟩

/-- A child is made. -/
theorem Accurate.forkStep (h : Accurate s) {ip pid : Nat} (hstage : s.stage = .forking ip) (hpid : freePid s pid)
    (refusal : Option (Nat × String)) :
    Accurate { s with stage := .recording ip pid, children := ⟨pid, ip, refusal⟩ :: s.children } := by
  obtain ⟨-, hlt, hfree⟩ := hpid
  have hexact := h.exact
  rw [hstage] at hexact
  refine ⟨h.soundIp, h.soundPid, ?_, List.forall_mem_cons.mpr ⟨hlt, h.pidLt⟩, fun other => ?_,
    fun number other => ?_, ?_, fun _ hrec => Stage.noConfusion hrec,
    fun _ hip => absurd hip (Option.not_mem_none _), fun _ _ hrec => Stage.noConfusion hrec, by simp⟩
  · refine List.nodup_cons.mpr ⟨fun hmem => ?_, h.pids⟩
    obtain ⟨child, hchild, heq⟩ := List.mem_map.mp hmem
    exact hfree child hchild heq
  · show countOf s.ipCount other = List.countP (·.ip = other) (⟨pid, ip, refusal⟩ :: s.children) + 0
    rw [hexact other, unmade, childrenOf]
    by_cases hip : ip = other
    · rw [if_pos hip, List.countP_cons_of_pos (by simpa using hip)]
    · rw [if_neg hip, List.countP_cons_of_neg (by simpa using hip)]
  · rw [h.written number other, hstage]
    -- the new child is not written down yet, and the others have other numbers
    constructor
    · rintro ⟨-, child, hchild, rfl, rfl⟩
      refine ⟨fun hrec => hfree child hchild (Stage.recording.inj hrec).2.symm, child,
        List.mem_cons_of_mem _ hchild, rfl, rfl⟩
    · rintro ⟨hrec, child, hchild, rfl, rfl⟩
      rcases List.mem_cons.mp hchild with rfl | hchild
      · exact absurd rfl hrec
      · exact ⟨fun heq => (Stage.noConfusion heq), child, hchild, rfl, rfl⟩
  · rintro _ _ ⟨⟩
    exact ⟨_, List.mem_cons_self, rfl, rfl⟩

/-- The number of a child that is about to be written down is not yet. -/
theorem Accurate.lookup_recording (h : Accurate s) {ip pid : Nat} (hstage : s.stage = .recording ip pid) :
    hashLookupEntry s.pidIp pid = none := by
  obtain ⟨child, hchild, hchildPid, hchildIp⟩ := h.recording ip pid hstage
  rw [Option.eq_none_iff_forall_ne_some]
  intro r hr
  obtain ⟨hrec, other, hother, hpid, rfl⟩ := (h.written pid r).mp hr
  obtain rfl := h.unique hchild hother (hchildPid.trans hpid.symm)
  exact hrec (hchildIp ▸ hstage)

/-- The address of a child is written down. -/
theorem Accurate.recordStep (h : Accurate s) {ip pid : Nat} (hstage : s.stage = .recording ip pid) :
    Accurate { s with stage := .waiting, pidIp := hashAddEntry s.pidIp pid ip } := by
  obtain ⟨child, hchild, hchildPid, hchildIp⟩ := h.recording ip pid hstage
  have hexact := h.exact
  rw [hstage] at hexact
  obtain ⟨hsound, hafter⟩ := h.soundPid.add ip (h.lookup_recording hstage)
  refine ⟨h.soundIp, hsound, h.pids, h.pidLt, hexact, fun number other => ?_, fun _ _ hrec => Stage.noConfusion hrec,
    fun _ hrec => Stage.noConfusion hrec, fun _ hip => absurd hip (Option.not_mem_none _),
    fun _ _ hrec => Stage.noConfusion hrec, by simp⟩
  dsimp only
  rw [hafter]
  rcases eq_or_ne number pid with rfl | hne
  · rw [Function.update_self, Option.some_inj]
    constructor
    · rintro rfl
      exact ⟨fun hrec => (Stage.noConfusion hrec), child, hchild, hchildPid, hchildIp⟩
    · rintro ⟨-, c, hc, hpid, rfl⟩
      rw [← hchildIp, h.unique hchild hc (hchildPid.trans hpid.symm)]
  · rw [Function.update_of_ne hne, h.written number other, hstage]
    exact and_congr_left' ⟨fun _ hrec => (Stage.noConfusion hrec), fun _ hrec => hne (Stage.recording.inj hrec).2.symm⟩

/-- The loop goes on. -/
theorem Accurate.loopStep (h : Accurate s) : Accurate (loopStep s) := by
  have hexact := h.exact
  have hnot : ∀ {stage : Stage}, s.stage = stage → (∀ ip pid, stage ≠ .recording ip pid) →
      ∀ ip pid, s.stage ≠ .recording ip pid := fun heq hne => heq ▸ hne
  rw [Ftpd.loopStep]
  split
  · rename_i ip hstage
    exact h.move rfl rfl rfl (hnot hstage (by simp)) (by simp) (by simp [hstage, unmade]) (by simp)
      (by simp [Stage.pointsTo]) (by simp) (by simp)
  · rename_i ip old hstage
    exact h.move rfl rfl rfl (hnot hstage (by simp)) (by simp) (by simp [hstage, unmade]) (by simp)
      (by simp [Stage.pointsTo]) (by simp) (by simp)
  · rename_i ip hstage
    exact h.move rfl rfl rfl (hnot hstage (by simp)) (by simp) (by simp [hstage, unmade]) (by simp)
      (by simp [Stage.pointsTo]) (by simp) (by simp)
  · rename_i ip hstage
    split_ifs with hlookup
    · exact h.move rfl rfl rfl (hnot hstage (by simp)) (by simp) (by simp [hstage, unmade]) (by simpa using hlookup)
        (by simp [Stage.pointsTo]) (by simp) (by simp)
    · exact h.move rfl rfl rfl (hnot hstage (by simp)) (by simp) (by simp [hstage, unmade]) (by simp)
        (by simpa [Stage.pointsTo] using hlookup) (by simp) (by simp)
  · rename_i ip hstage
    have hnone := h.absent ip hstage
    have hzero : childrenOf s ip = 0 := by
      have hcount := hexact ip
      rw [countOf, hnone, Option.getD_none] at hcount
      omega
    obtain ⟨hsound, hafter⟩ := h.soundIp.add 1 hnone
    refine h.countStep (hnot hstage (by simp)) (by simp [hstage, unmade]) hsound ?_ 1
    rw [hzero]
    exact countOf_eq_update hafter
  · rename_i ip hstage
    have hcount : (countOf s.ipCount ip + 1) % 2 ^ 32 = childrenOf s ip + 1 := by
      have hzero : unmade (.reading ip) ip = 0 := rfl
      rw [hexact ip, hstage, hzero, Nat.add_zero]
      exact Nat.mod_eq_of_lt (h.childrenOf_lt ip)
    refine h.move rfl rfl rfl (hnot hstage (by simp)) (by simp) (by simp [hstage, unmade]) (by simp) ?_ ?_ (by simp)
    · rintro _ ⟨⟩
      exact h.points ip (by rw [hstage]; rfl)
    · rintro _ _ ⟨⟩
      exact hcount
  · rename_i ip count hstage
    obtain ⟨old, hold⟩ := Option.ne_none_iff_exists'.mp (h.points ip (by rw [hstage]; rfl))
    obtain ⟨hsound, hafter⟩ := h.soundIp.store count hold
    refine h.countStep (hnot hstage (by simp)) (by simp [hstage, unmade]) hsound ?_ count
    rw [← h.storing ip count hstage]
    exact countOf_eq_update hafter
  · rename_i ip pid hstage
    exact h.recordStep hstage
  · exact h
  · exact h
  · exact h
  · exact h

/-- The children when one is gone. -/
theorem Accurate.childrenOf_handleSigchld (h : Accurate s) {child : Process} (hchild : child ∈ s.children) (ip : Nat) :
    childrenOf (handleSigchld s child.pid) ip + (if child.ip = ip then 1 else 0) = childrenOf s ip := by
  have hgone := countP_filter_pid h.pids hchild fun c => c.ip = ip
  rw [childrenOf, handleSigchld_children, childrenOf, ← hgone]
  by_cases hip : child.ip = ip
  · rw [if_pos hip, decide_eq_true hip, Bool.toNat_true]
  · rw [if_neg hip, decide_eq_false hip, Bool.toNat_false]

/-- The tables when a child is gone that has been written down. -/
theorem Accurate.handleSigchld_tables (h : Accurate s) {child : Process} (hchild : child ∈ s.children)
    (hlate : s.stage ≠ .recording child.ip child.pid) :
    (handleSigchld s child.pid).ipCount = dropIpCount s.ipCount child.ip ∧
      (handleSigchld s child.pid).pidIp = hashFreeEntry s.pidIp child.pid := by
  have hlookup : hashLookupEntry s.pidIp child.pid = some child.ip :=
    (h.written _ _).mpr ⟨hlate, child, hchild, rfl, rfl⟩
  rw [handleSigchld, hlookup]
  exact ⟨rfl, rfl⟩

/-- The handler waits for a child, and not too early. -/
theorem Accurate.handleSigchld (h : Accurate s) {child : Process} (hchild : child ∈ s.children)
    (hlate : ¬TooEarly s child) : Accurate (handleSigchld s child.pid) := by
  have hwritten : s.stage ≠ .recording child.ip child.pid := by
    intro hstage
    refine hlate ?_
    rw [TooEarly, hstage]
  obtain ⟨hip, hpid⟩ := h.handleSigchld_tables hchild hwritten
  obtain ⟨hsoundIp, hcount, hsame⟩ := h.soundIp.dropIpCount child.ip
  obtain ⟨hsoundPid, hfree⟩ := h.soundPid.free child.pid
  have hmem : ∀ other, other ∈ (Ftpd.handleSigchld s child.pid).children ↔
      other ∈ s.children ∧ other.pid ≠ child.pid := by
    intro other
    rw [handleSigchld_children, List.mem_filter, decide_eq_true_iff]
  constructor
  · exact hip ▸ hsoundIp
  · exact hpid ▸ hsoundPid
  · rw [handleSigchld_children]
    exact h.pids.sublist (List.filter_sublist.map _)
  · exact fun other hother => h.pidLt other ((hmem other).mp hother).1
  · intro ip
    have hgone := h.childrenOf_handleSigchld hchild ip
    have hexact := h.exact ip
    rw [hip, hcount, handleSigchld_stage]
    rcases eq_or_ne ip child.ip with rfl | hne
    · rw [if_pos rfl] at hgone
      rw [Function.update_self]
      omega
    · rw [if_neg hne.symm] at hgone
      rw [Function.update_of_ne hne]
      omega
  · intro pid ip
    rw [hpid, hfree, handleSigchld_stage]
    rcases eq_or_ne pid child.pid with rfl | hne
    · rw [Function.update_self]
      constructor
      · exact fun heq => absurd heq.symm (Option.some_ne_none ip)
      · rintro ⟨-, other, hother, heq, -⟩
        exact absurd heq ((hmem other).mp hother).2
    · rw [Function.update_of_ne hne, h.written pid ip]
      refine and_congr_right' ⟨?_, ?_⟩
      · rintro ⟨other, hother, rfl, hother'⟩
        exact ⟨other, (hmem other).mpr ⟨hother, hne⟩, rfl, hother'⟩
      · rintro ⟨other, hother, heq⟩
        exact ⟨other, ((hmem other).mp hother).1, heq⟩
  · rw [handleSigchld_stage]
    intro ip pid hstage
    obtain ⟨other, hother, rfl, rfl⟩ := h.recording ip pid hstage
    refine ⟨other, (hmem other).mpr ⟨hother, fun heq => hwritten ?_⟩, rfl, rfl⟩
    obtain rfl := h.unique hother hchild heq
    exact hstage
  · rw [handleSigchld_stage, hip]
    intro ip hstage
    rw [hsame ip (Or.inl (h.absent ip hstage)), h.absent ip hstage]
  · rw [handleSigchld_stage, hip]
    intro ip hpoints
    rcases eq_or_ne ip child.ip with rfl | hne
    · -- another child of the address is left, so the entry stays
      have hexact := h.exact child.ip
      have hgone := h.childrenOf_handleSigchld hchild child.ip
      have hafter := congrFun hcount child.ip
      rw [if_pos rfl] at hgone
      rw [Function.update_self] at hafter
      intro hnone
      rw [countOf, hnone, Option.getD_none] at hafter
      cases hstage : s.stage with
      | reading i =>
          rw [hstage] at hpoints hexact
          obtain rfl : i = child.ip := Option.some_inj.mp hpoints
          refine hlate ?_
          rw [TooEarly, hstage]
          refine ⟨rfl, ?_⟩
          have hzero : unmade (.reading child.ip) child.ip = 0 := rfl
          omega
      | storing i count =>
          rw [hstage] at hpoints
          obtain rfl : i = child.ip := Option.some_inj.mp hpoints
          refine hlate ?_
          rw [TooEarly, hstage]
      | _ =>
          rw [hstage] at hpoints
          exact absurd hpoints (Option.not_mem_none _)
    · rw [hsame ip (Or.inr hne)]
      exact h.points ip hpoints
  · rw [handleSigchld_stage]
    intro ip count hstage
    have hgone := h.childrenOf_handleSigchld hchild ip
    have hne : child.ip ≠ ip := by
      intro heq
      refine hlate ?_
      rw [TooEarly, hstage]
      exact heq
    rw [if_neg hne, Nat.add_zero] at hgone
    rw [hgone]
    exact h.storing ip count hstage
  · rw [handleSigchld_stage]
    exact h.runs

/-- A step that does not wait for a child early. -/
theorem Accurate.step (h : Accurate s) (tunable : Tunables) (event : Event) (hearly : ¬Early s event) :
    Accurate (serverStep tunable s event).1 ∨ (serverStep tunable s event).1.stage = .exited := by
  cases event with
  | accept ip =>
      rw [serverStep]
      split
      · rename_i hstage
        refine Or.inl (h.move rfl rfl rfl ?_ (by simp) (by simp [hstage, unmade]) (by simp) (by simp [Stage.pointsTo])
          (by simp) (by simp))
        exact fun _ _ hrec => Stage.noConfusion (hstage.symm.trans hrec)
      · exact Or.inl h
  | next => exact Or.inl h.loopStep
  | fork number =>
      cases number with
      | none =>
          rw [serverStep]
          split
          · exact Or.inr rfl
          · exact Or.inl h
      | some pid =>
          rw [serverStep]
          split
          · rename_i ip hstage
            split_ifs with hpid
            · exact Or.inl (h.forkStep hstage hpid _)
            · exact Or.inl h
          · exact Or.inl h
  | reap pid =>
      rw [serverStep]
      split_ifs with hreap hpoints
      · obtain ⟨-, -, child, hchild, rfl⟩ := hreap
        have hnext := h.handleSigchld hchild fun htoo => hearly ⟨child, hchild, Or.inl ⟨rfl, htoo⟩⟩
        obtain ⟨ip, hip, hnone⟩ := hpoints
        exact absurd hnone (hnext.points ip hip)
      · obtain ⟨-, -, child, hchild, rfl⟩ := hreap
        exact Or.inl (h.handleSigchld hchild fun htoo => hearly ⟨child, hchild, Or.inl ⟨rfl, htoo⟩⟩)
      · exact Or.inl h
  | reapInside pid =>
      rw [serverStep]
      split_ifs with hinside
      · obtain ⟨hstage, child, hchild, rfl⟩ := hinside
        exact absurd ⟨child, hchild, Or.inr ⟨rfl, hstage⟩⟩ hearly
      · exact Or.inl h

theorem not_exact_undefined (h : s.stage = .undefined) : ¬Exact s := fun hexact => hexact.1 h

/-- A child that is waited for too early leaves the counts wrong, or the run without a meaning. -/
theorem Accurate.tooEarly (h : Accurate s) {child : Process} (hchild : child ∈ s.children) (htoo : TooEarly s child)
    (hpoints : ¬(Ftpd.handleSigchld s child.pid).Dangles) : ¬Exact (Ftpd.handleSigchld s child.pid) := by
  have hgone := h.childrenOf_handleSigchld hchild child.ip
  have hexact := h.exact child.ip
  rw [if_pos rfl] at hgone
  rw [Exact, handleSigchld_stage]
  rintro ⟨-, hexited | ⟨hcounts, hstored⟩⟩
  · exact h.runs.1 hexited
  · rw [TooEarly] at htoo
    cases hstage : s.stage with
    | recording ip pid =>
        rw [hstage] at htoo hexact hcounts
        obtain ⟨other, hother, rfl, rfl⟩ := h.recording ip pid hstage
        obtain rfl := h.unique hchild hother htoo
        have hsame : (Ftpd.handleSigchld s child.pid).ipCount = s.ipCount := by
          rw [Ftpd.handleSigchld, h.lookup_recording hstage]
        have hafter := hcounts child.ip
        have hzero : unmade (.recording child.ip child.pid) child.ip = 0 := rfl
        rw [hsame] at hafter
        omega
    | storing ip count =>
        rw [hstage] at htoo
        have hbefore := h.storing ip count hstage
        have hafter := hstored ip count hstage
        rw [← htoo] at hbefore hafter
        omega
    | reading ip =>
        rw [hstage] at htoo hexact
        obtain ⟨heq, hone⟩ := htoo
        subst heq
        obtain ⟨count, hcount⟩ := Option.ne_none_iff_exists'.mp (h.points child.ip (by rw [hstage]; rfl))
        have hzero : unmade (.reading child.ip) child.ip = 0 := rfl
        rw [countOf, hcount, Option.getD_some, hone, hzero, Nat.add_zero] at hexact
        rw [hexact] at hcount
        refine hpoints ⟨child.ip, by rw [handleSigchld_stage, hstage]; rfl, ?_⟩
        rw [(h.handleSigchld_tables hchild (by rw [hstage]; simp)).1]
        exact h.soundIp.dropIpCount_one hcount
    | _ =>
        rw [hstage] at htoo
        exact htoo

theorem Accurate.early (h : Accurate s) (tunable : Tunables) {event : Event} (hearly : Early s event) :
    ¬Exact (serverStep tunable s event).1 := by
  obtain ⟨child, hchild, ⟨rfl, htoo⟩ | ⟨rfl, hinside⟩⟩ := hearly
  · rw [serverStep, if_pos ⟨h.runs.1, h.runs.2, child, hchild, rfl⟩]
    split_ifs with hpoints
    · exact not_exact_undefined rfl
    · exact h.tooEarly hchild htoo hpoints
  · rw [serverStep, if_pos ⟨hinside, child, hchild, rfl⟩]
    exact not_exact_undefined rfl

/-- A server that has ended stays as it is. -/
theorem serverStep_exited (tunable : Tunables) (event : Event) (h : s.stage = .exited) :
    (serverStep tunable s event).1 = s := by
  cases event with
  | accept ip => rw [serverStep, h]
  | next => rw [serverStep, loopStep, h]
  | fork number => cases number <;> rw [serverStep, h]
  | reap pid => rw [serverStep, if_neg fun hreap => hreap.1 h]
  | reapInside pid =>
      rw [serverStep, h]
      rfl

theorem Accurate.isExact (h : Accurate s) : Exact s := ⟨h.runs.2, Or.inr ⟨h.exact, h.storing⟩⟩

theorem exact_of_or (h : Accurate s ∨ s.stage = .exited) : Exact s := by
  rcases h with h | h
  · exact h.isExact
  · exact ⟨by rw [h]; simp, Or.inl h⟩

theorem not_early_exited (event : Event) (h : s.stage = .exited) : ¬Early s event := by
  rintro ⟨child, -, ⟨-, htoo⟩ | ⟨-, hinside⟩⟩
  · rw [TooEarly, h] at htoo
    exact htoo
  · rw [h] at hinside
    exact Bool.noConfusion hinside

/-- From a state with exact counts, the counts stay exact exactly if no child is waited for early. -/
theorem exact_iff (tunable : Tunables) (events : List Event) (h : Accurate s ∨ s.stage = .exited) :
    (∀ front, front <+: events → Exact (runSteps (serverStep tunable) s front).1) ↔
      Along (serverStep tunable) (fun s event => ¬Early s event) s events := by
  induction events generalizing s with
  | nil =>
      refine ⟨fun _ => trivial, fun _ front hfront => ?_⟩
      rw [List.prefix_nil.mp hfront]
      exact exact_of_or h
  | cons event events ih =>
      have hnow : ∀ hnext : Accurate (serverStep tunable s event).1 ∨ (serverStep tunable s event).1.stage = .exited,
          (∀ front, front <+: event :: events → Exact (runSteps (serverStep tunable) s front).1) ↔
            Along (serverStep tunable) (fun s event => ¬Early s event) (serverStep tunable s event).1 events := by
        intro hnext
        rw [← ih hnext]
        constructor
        · exact fun hall front hfront => hall (event :: front) (List.cons_prefix_cons.mpr ⟨rfl, hfront⟩)
        · intro hall front hfront
          cases front with
          | nil => exact exact_of_or h
          | cons first front =>
              obtain ⟨rfl, hrest⟩ := List.cons_prefix_cons.mp hfront
              exact hall front hrest
      rw [Along]
      rcases h with h | h
      · by_cases hearly : Early s event
        · refine ⟨fun hall => absurd (hall [event] ?_) ?_, fun hall => absurd hearly hall.1⟩
          · exact List.cons_prefix_cons.mpr ⟨rfl, List.nil_prefix⟩
          · rw [runSteps_singleton]
            exact h.early tunable hearly
        · rw [hnow (h.step tunable event hearly)]
          exact ⟨fun hall => ⟨hearly, hall⟩, fun hall => hall.2⟩
      · rw [hnow (Or.inr (by rwa [serverStep_exited tunable event h]))]
        exact ⟨fun hall => ⟨not_early_exited event h, hall⟩, fun hall => hall.2⟩

end Accurate

end QLog.Ftpd
