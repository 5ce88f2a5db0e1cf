import Mathlib.Data.Finset.Card
import QLog.Ftpd.Hash
import QLog.Library.CString

/-! # The connection limits of the FTP server

The server counts its children and the connections of every address, and a child whose counts are above the limits
refuses its session. The counts go down in the handler of `SIGCHLD`, which is never blocked: it runs between any two
statements, between the read and the store of `++s_children` and of `handle_ip_count`, and inside the functions of the
hash table. A child may end before the loop has written down which address it serves, and its number may be given to
another child.

A handler that runs inside a function of the hash table, or that frees the entry which `handle_ip_count` has a pointer
to, leaves a run without a meaning; `undefined` is that state. Elsewhere a count that the handler has changed between a
read and a store comes out too large, never too small, so that the limits hold in every run up to there. -/

namespace QLog.Ftpd

open Library

/-- `tunable_max_clients` and `tunable_max_per_ip` -/
structure Tunables where
  maxClients : Nat
  maxPerIp : Nat

/-- `hash_func` -/
def hashFunc (buckets number : Nat) : Nat := number % buckets

/-- `hash_alloc(256, hash_func)` -/
def countHash : Hash Nat Nat := hashAlloc 256 hashFunc fun key => Nat.mod_lt key (by decide)

/-- What the table says of an address. -/
def countOf (hash : Hash Nat Nat) (ip : Nat) : Nat := (hashLookupEntry hash ip).getD 0

/-- `drop_ip_count` -/
def dropIpCount (hash : Hash Nat Nat) (ip : Nat) : Hash Nat Nat :=
  match hashLookupEntry hash ip with
  | none => hash
  | some count =>
      if count = 0 then hash
      else if count - 1 = 0 then hashFreeEntry (hashStoreEntry hash ip (count - 1)) ip
      else hashStoreEntry hash ip (count - 1)

/-- `check_limits`: the code and the text of the refusal, if the session is refused. -/
def checkLimits (tunable : Tunables) (numClients numThisIp : Nat) : Option (Nat × String) :=
  if tunable.maxClients > 0 ∧ numClients > tunable.maxClients then
    some (421, "There are too many connected users, please try later.")
  else if tunable.maxPerIp > 0 ∧ numThisIp > tunable.maxPerIp then
    some (421, "There are too many connections from your internet address.")
  else none

/-- What the loop does next, with the address of the connection. -/
inductive Stage where
  /-- `accept_timeout` -/
  | waiting
  /-- `++s_children`, before it is read -/
  | counting (ip : Nat)
  /-- `++s_children`, before it is stored -/
  | incrementing (ip old : Nat)
  /-- `sess.num_clients = s_children` -/
  | clients (ip : Nat)
  /-- `hash_lookup_entry` in `handle_ip_count` -/
  | addresses (ip : Nat)
  /-- `hash_add_entry` in `handle_ip_count`, where there is no entry -/
  | absent (ip : Nat)
  /-- `count = *p_count` -/
  | reading (ip : Nat)
  /-- `*p_count = count` -/
  | storing (ip count : Nat)
  /-- `fork` -/
  | forking (ip : Nat)
  /-- `hash_add_entry(s_pid_ip_hash, …)` -/
  | recording (ip pid : Nat)
  | exited
  /-- The handler has run where the program has no meaning any more. -/
  | undefined
  deriving DecidableEq

/-- The loop calls a function of the hash table next. -/
def Stage.inHash : Stage → Bool
  | .addresses _ | .absent _ | .recording _ _ => true
  | _ => false

/-- `++s_children` has read the variable and not stored it yet. -/
def Stage.inIncrement : Stage → Bool
  | .incrementing _ _ => true
  | _ => false

/-- The address whose count `p_count` points to. -/
def Stage.pointsTo : Stage → Option Nat
  | .reading ip | .storing ip _ => some ip
  | _ => none

/-- A child that has not been waited for, and its answer to `check_limits`. -/
structure Process where
  pid : Nat
  ip : Nat
  refusal : Option (Nat × String)

/-- The variables of `main`, and its children. -/
structure Server where
  children : List Process
  stage : Stage
  sChildren : Nat
  numClients : Nat
  numThisIp : Nat
  ipCount : Hash Nat Nat
  pidIp : Hash Nat Nat

/-- `main` before its loop. -/
def serverInit : Server := ⟨[], .waiting, 0, 0, 0, countHash, countHash⟩

/-- What happens: a connection is accepted, the loop goes on by an access, `fork` returns, or the handler waits for one
child that has ended, before what the loop does next or inside the function that it calls next. -/
inductive Event where
  | accept (ip : Nat)
  | next
  | fork (pid : Option Nat)
  | reap (pid : Nat)
  | reapInside (pid : Nat)
  deriving DecidableEq

/-- One round of the loop in `handle_sigchld`: a child that has not been written down only goes out of `s_children`. -/
def handleSigchld (s : Server) (pid : Nat) : Server :=
  { s with
    sChildren := (s.sChildren + (2 ^ 32 - 1)) % 2 ^ 32
    ipCount := match hashLookupEntry s.pidIp pid with
      | none => s.ipCount
      | some ip => dropIpCount s.ipCount ip
    pidIp := match hashLookupEntry s.pidIp pid with
      | none => s.pidIp
      | some _ => hashFreeEntry s.pidIp pid
    children := s.children.filter (·.pid ≠ pid) }

section Handler

variable (s : Server) (pid : Nat)

@[simp] theorem handleSigchld_stage : (handleSigchld s pid).stage = s.stage := by rw [handleSigchld]

@[simp] theorem handleSigchld_numClients : (handleSigchld s pid).numClients = s.numClients := by rw [handleSigchld]

@[simp] theorem handleSigchld_numThisIp : (handleSigchld s pid).numThisIp = s.numThisIp := by rw [handleSigchld]

@[simp] theorem handleSigchld_children :
    (handleSigchld s pid).children = s.children.filter (·.pid ≠ pid) := by rw [handleSigchld]

@[simp] theorem handleSigchld_sChildren :
    (handleSigchld s pid).sChildren = (s.sChildren + (2 ^ 32 - 1)) % 2 ^ 32 := by rw [handleSigchld]

end Handler

/-- The entry that `p_count` points to has been freed. -/
def Server.Dangles (s : Server) : Prop := ∃ ip ∈ s.stage.pointsTo, hashLookupEntry s.ipCount ip = none

instance (s : Server) : Decidable s.Dangles := by
  unfold Server.Dangles
  infer_instance

/-- A child that has not been waited for has this number. -/
def Server.HasChild (s : Server) (pid : Nat) : Prop := ∃ child ∈ s.children, child.pid = pid

instance (s : Server) (pid : Nat) : Decidable (s.HasChild pid) := inferInstanceAs (Decidable (∃ _ ∈ _, _))

/-- Numbers of children are positive, and a number is not given twice at a time. -/
def freePid (s : Server) (pid : Nat) : Prop := 0 < pid ∧ pid < 2 ^ 31 ∧ ∀ child ∈ s.children, child.pid ≠ pid

instance (s : Server) (pid : Nat) : Decidable (freePid s pid) := instDecidableAnd

/-- The loop goes on by an access, or by a call of a function of the hash table. -/
def loopStep (s : Server) : Server :=
  match s.stage with
  | .counting ip => { s with stage := .incrementing ip s.sChildren }
  | .incrementing ip old => { s with stage := .clients ip, sChildren := (old + 1) % 2 ^ 32 }
  | .clients ip => { s with stage := .addresses ip, numClients := s.sChildren }
  | .addresses ip =>
      { s with stage := if hashLookupEntry s.ipCount ip = none then .absent ip else .reading ip }
  | .absent ip => { s with stage := .forking ip, ipCount := hashAddEntry s.ipCount ip 1, numThisIp := 1 }
  | .reading ip => { s with stage := .storing ip ((countOf s.ipCount ip + 1) % 2 ^ 32) }
  | .storing ip count =>
      { s with stage := .forking ip, ipCount := hashStoreEntry s.ipCount ip count, numThisIp := count }
  | .recording ip pid => { s with stage := .waiting, pidIp := hashAddEntry s.pidIp pid ip }
  | .waiting | .forking _ | .exited | .undefined => s

/-- One step of the loop or of the handler; what cannot happen in a state changes nothing. The refusals that the
children send are put out. -/
def serverStep (tunable : Tunables) (s : Server) (event : Event) : Server × List (Nat × String) :=
  match event with
  | .accept ip =>
      match s.stage with
      | .waiting => ({ s with stage := .counting ip }, [])
      | _ => (s, [])
  | .next => (loopStep s, [])
  | .fork none =>
      match s.stage with
      | .forking _ => ({ s with stage := .exited, sChildren := (s.sChildren + (2 ^ 32 - 1)) % 2 ^ 32 }, [])
      | _ => (s, [])
  | .fork (some pid) =>
      match s.stage with
      | .forking ip =>
          if freePid s pid then
            let refusal := checkLimits tunable s.numClients s.numThisIp
            ({ s with stage := .recording ip pid, children := ⟨pid, ip, refusal⟩ :: s.children }, refusal.toList)
          else (s, [])
      | _ => (s, [])
  | .reap pid =>
      if s.stage ≠ .exited ∧ s.stage ≠ .undefined ∧ s.HasChild pid then
        -- the loop goes on with a pointer to freed memory
        if (handleSigchld s pid).Dangles then ({ handleSigchld s pid with stage := .undefined }, [])
        else (handleSigchld s pid, [])
      else (s, [])
  | .reapInside pid =>
      if s.stage.inHash ∧ s.HasChild pid then ({ s with stage := .undefined }, []) else (s, [])

/-! ## The counts of the addresses -/

section Counts

variable {hash : Hash Nat Nat}

/-- An entry of the table is written: only the count of its address changes. -/
theorem countOf_eq_update {hash' : Hash Nat Nat} {ip : Nat} {value : Option Nat}
    (h : hashLookupEntry hash' = Function.update (hashLookupEntry hash) ip value) :
    countOf hash' = Function.update (countOf hash) ip (value.getD 0) := by
  funext other
  rw [countOf, h]
  rcases eq_or_ne other ip with rfl | hne
  · rw [Function.update_self, Function.update_self]
  · rw [Function.update_of_ne hne, Function.update_of_ne hne, countOf]

/-- `drop_ip_count` counts the address down, as far as it goes, and makes no entry. -/
theorem Sound.dropIpCount (h : Sound hash) (ip : Nat) :
    Sound (dropIpCount hash ip) ∧
      countOf (dropIpCount hash ip) = Function.update (countOf hash) ip (countOf hash ip - 1) ∧
      ∀ other, hashLookupEntry hash other = none ∨ other ≠ ip →
        hashLookupEntry (dropIpCount hash ip) other = hashLookupEntry hash other := by
  have hsame : ∀ {hash' : Hash Nat Nat} {value : Option Nat}, hashLookupEntry hash ip ≠ none →
      hashLookupEntry hash' = Function.update (hashLookupEntry hash) ip value →
      ∀ other, hashLookupEntry hash other = none ∨ other ≠ ip →
        hashLookupEntry hash' other = hashLookupEntry hash other := by
    intro hash' value hsome hafter other hother
    rw [hafter, Function.update_of_ne]
    rintro rfl
    exact hother.elim hsome fun hne => hne rfl
  rw [Ftpd.dropIpCount]
  cases hlookup : hashLookupEntry hash ip with
  | none =>
      refine ⟨h, (Function.update_eq_self_iff.mpr ?_).symm, fun _ _ => rfl⟩
      rw [countOf, hlookup]
      rfl
  | some count =>
      have hcount : countOf hash ip = count := by rw [countOf, hlookup, Option.getD_some]
      have hsome : hashLookupEntry hash ip ≠ none := by
        rw [hlookup]
        exact Option.some_ne_none count
      obtain ⟨hsound, hafter⟩ := h.store (count - 1) hlookup
      dsimp only
      rw [hcount]
      split_ifs with hzero hone
      · refine ⟨h, (Function.update_eq_self_iff.mpr ?_).symm, fun _ _ => rfl⟩
        rw [hcount, hzero]
      -- the last connection of an address takes its entry along
      · obtain ⟨hsound', hafter'⟩ := hsound.free ip
        rw [hafter, Function.update_idem] at hafter'
        refine ⟨hsound', ?_, hsame hsome hafter'⟩
        rw [hone] at hafter' ⊢
        exact countOf_eq_update hafter'
      · exact ⟨hsound, countOf_eq_update hafter, hsame hsome hafter⟩

/-- The last connection of an address takes its entry along. -/
theorem Sound.dropIpCount_one (h : Sound hash) {ip : Nat} (hone : hashLookupEntry hash ip = some 1) :
    hashLookupEntry (Ftpd.dropIpCount hash ip) ip = none := by
  obtain ⟨hsound, -⟩ := h.store 0 hone
  rw [Ftpd.dropIpCount, hone]
  show hashLookupEntry (hashFreeEntry (hashStoreEntry hash ip 0) ip) ip = none
  rw [(hsound.free ip).2, Function.update_self]

end Counts

/-! ## The children -/

/-- How many children an address has. -/
def childrenOf (s : Server) (ip : Nat) : Nat := s.children.countP (·.ip = ip)

/-- A child is gone: what is counted goes down by one if the child was counted. -/
theorem countP_filter_pid {children : List Process} {child : Process} (hnodup : (children.map (·.pid)).Nodup)
    (hchild : child ∈ children) (counted : Process → Bool) :
    (children.filter (·.pid ≠ child.pid)).countP counted + (counted child).toNat = children.countP counted := by
  induction children with
  | nil => exact absurd hchild List.not_mem_nil
  | cons first rest ih =>
      rw [List.map_cons] at hnodup
      obtain ⟨hnot, hnodup⟩ := List.nodup_cons.mp hnodup
      rcases List.mem_cons.mp hchild with rfl | hchild
      · have hrest : rest.filter (·.pid ≠ child.pid) = rest := by
          refine List.filter_eq_self.mpr fun other hother => decide_eq_true fun heq => hnot ?_
          exact heq ▸ List.mem_map_of_mem hother
        rw [List.filter_cons_of_neg (by simp), hrest, List.countP_cons]
        cases counted child <;> rfl
      · have hne : first.pid ≠ child.pid := fun heq => hnot (heq ▸ List.mem_map_of_mem hchild)
        rw [List.filter_cons_of_pos (by simpa using hne), List.countP_cons, List.countP_cons, ← ih hnodup hchild]
        omega

/-- There are no more children than numbers for them. -/
theorem length_le_of_pids {children : List Process} (hnodup : (children.map (·.pid)).Nodup)
    (hlt : ∀ child ∈ children, child.pid < 2 ^ 31) : children.length ≤ 2 ^ 31 := by
  have hsub : (children.map (·.pid)).toFinset ⊆ Finset.range (2 ^ 31) := by
    intro pid hpid
    obtain ⟨child, hchild, rfl⟩ := List.mem_map.mp (List.mem_toFinset.mp hpid)
    exact Finset.mem_range.mpr (hlt child hchild)
  have hcard := Finset.card_le_card hsub
  rwa [List.toFinset_card_of_nodup hnodup, Finset.card_range, List.length_map] at hcard

/-- A number other than the one that is taken out stays. -/
theorem mem_erase_of_ne {tokens : Nat → Finset Nat} {pid other ip r : Nat} (h : pid ∈ tokens ip) (hne : pid ≠ other) :
    pid ∈ Function.update tokens r ((tokens r).erase other) ip := by
  rcases eq_or_ne ip r with rfl | hip
  · rw [Function.update_self]
    exact Finset.mem_erase.mpr ⟨hne, h⟩
  · rwa [Function.update_of_ne hip]

/-- Whether the loop has counted a child that it has not made yet. -/
def counted : Stage → Nat
  | .clients _ | .addresses _ | .absent _ | .reading _ | .storing _ _ | .forking _ => 1
  | _ => 0

/-- Whether the loop has counted an address for a child that it has not written down yet. -/
def pending : Stage → Nat → Nat
  | .forking i, ip | .recording i _, ip => if i = ip then 1 else 0
  | _, _ => 0

/-- Whether the loop has accepted a connection that `s_children` does not count yet. -/
def uncounted : Stage → Nat
  | .counting _ | .incrementing _ _ => 1
  | _ => 0

/-- Whether the loop has accepted a connection that the table does not count yet. -/
def begun : Stage → Nat
  | .counting _ | .incrementing _ _ | .clients _ | .addresses _ | .absent _ | .reading _ | .storing _ _ => 1
  | _ => 0

/-- What holds before the next access: `old` and `count` are no less than what the handler has left, and the counts of
the session include the child that is to be made. -/
def StageInv (n : Nat) (s : Server) : Prop :=
  match s.stage with
  | .incrementing _ old => s.children.length ≤ old ∧ old + 1 ≤ n
  | .addresses _ => s.children.length + 1 ≤ s.numClients
  | .absent ip => s.children.length + 1 ≤ s.numClients ∧ hashLookupEntry s.ipCount ip = none
  | .reading ip => s.children.length + 1 ≤ s.numClients ∧ hashLookupEntry s.ipCount ip ≠ none
  | .storing ip count =>
      s.children.length + 1 ≤ s.numClients ∧ hashLookupEntry s.ipCount ip ≠ none ∧ countOf s.ipCount ip + 1 ≤ count ∧
        count ≤ n
  | .forking ip => s.children.length + 1 ≤ s.numClients ∧ childrenOf s ip + 1 ≤ s.numThisIp
  | .recording ip pid => ∀ child ∈ s.children, child.pid = pid → child.ip = ip
  | .waiting | .counting _ | .clients _ | .exited | .undefined => True

/-- What the loop and the handler keep: `s_children` is no less than the children, and every count of an address has
room for the numbers that are written down for it and the children that serve it. `n` connections have been accepted. -/
structure Counted (n : Nat) (s : Server) : Prop where
  soundIp : Sound s.ipCount
  soundPid : Sound s.pidIp
  pids : (s.children.map (·.pid)).Nodup
  pidLt : ∀ child ∈ s.children, child.pid < 2 ^ 31
  sChildren : s.children.length + counted s.stage ≤ s.sChildren
  sChildren_le : s.sChildren + uncounted s.stage ≤ n
  bounded : ∀ ip, countOf s.ipCount ip + begun s.stage ≤ n
  room : ∃ tokens : Nat → Finset Nat,
    (∀ pid ip, hashLookupEntry s.pidIp pid = some ip → pid ∈ tokens ip) ∧
    (∀ child ∈ s.children, s.stage ≠ .recording child.ip child.pid → child.pid ∈ tokens child.ip) ∧
    ∀ ip, (tokens ip).card + pending s.stage ip ≤ countOf s.ipCount ip
  stage : StageInv n s

section Counted

variable {n : Nat} {s : Server}

/-- No address has more children than its count says, when none is about to be written down. -/
theorem Counted.childrenOf_le (h : Counted n s) {ip : Nat} (hstage : ∀ i pid, s.stage ≠ .recording i pid) :
    childrenOf s ip ≤ countOf s.ipCount ip := by
  obtain ⟨tokens, -, hchildren, hroom⟩ := h.room
  have hsub : ((s.children.filter (·.ip = ip)).map (·.pid)).toFinset ⊆ tokens ip := by
    intro pid hpid
    obtain ⟨child, hchild, rfl⟩ := List.mem_map.mp (List.mem_toFinset.mp hpid)
    obtain ⟨hmem, hip⟩ := List.mem_filter.mp hchild
    obtain rfl := of_decide_eq_true hip
    exact hchildren child hmem (hstage _ _)
  have hnodup : ((s.children.filter (·.ip = ip)).map (·.pid)).Nodup :=
    h.pids.sublist (List.filter_sublist.map _)
  have hcard := Finset.card_le_card hsub
  rw [List.toFinset_card_of_nodup hnodup, List.length_map, ← List.countP_eq_length_filter] at hcard
  exact le_trans hcard (le_trans (Nat.le_add_right _ _) (hroom ip))

theorem counted_serverInit : Counted 0 serverInit := by
  obtain ⟨hsound, hnone⟩ := sound_hashAlloc (ν := Nat) 256 hashFunc fun key => Nat.mod_lt key (by decide)
  have hcount : ∀ ip, countOf countHash ip = 0 := fun ip => by rw [countOf, countHash, hnone, Option.getD_none]
  refine ⟨hsound, hsound, List.nodup_nil, ?_, Nat.le_refl _, Nat.le_refl _, fun ip => (hcount ip).le,
    ⟨fun _ => ∅, ?_, ?_, ?_⟩, trivial⟩
  · exact fun _ hchild => absurd hchild List.not_mem_nil
  · intro pid ip hip
    exact absurd ((hnone pid).symm.trans hip).symm (Option.some_ne_none ip)
  · exact fun _ hchild => absurd hchild List.not_mem_nil
  · exact fun ip => Nat.zero_le _

/-! ### The handler -/

/-- The handler only takes away: a child, its count, and maybe the entry of its address. -/
theorem Counted.stageInv_handleSigchld (h : Counted n s) (pid : Nat) (hpoints : ¬(handleSigchld s pid).Dangles)
    (hcount : ∀ ip, countOf (handleSigchld s pid).ipCount ip ≤ countOf s.ipCount ip)
    (hnone : ∀ ip, hashLookupEntry s.ipCount ip = none → hashLookupEntry (handleSigchld s pid).ipCount ip = none) :
    StageInv n (handleSigchld s pid) := by
  have hinv := h.stage
  have hlength : (s.children.filter (·.pid ≠ pid)).length ≤ s.children.length := List.length_filter_le _ _
  have hfewer : ∀ ip, childrenOf (handleSigchld s pid) ip ≤ childrenOf s ip := by
    intro ip
    rw [childrenOf, handleSigchld_children]
    exact List.filter_sublist.countP_le
  have hstill : ∀ ip ∈ s.stage.pointsTo, hashLookupEntry (handleSigchld s pid).ipCount ip ≠ none :=
    fun ip hip hfreed => hpoints ⟨ip, by rwa [handleSigchld_stage], hfreed⟩
  rw [StageInv] at hinv ⊢
  rw [handleSigchld_stage, handleSigchld_children, handleSigchld_numClients, handleSigchld_numThisIp]
  cases hstage : s.stage with
  | incrementing ip old =>
      rw [hstage] at hinv
      exact ⟨hlength.trans hinv.1, hinv.2⟩
  | addresses ip =>
      rw [hstage] at hinv
      exact (Nat.succ_le_succ hlength).trans hinv
  | absent ip =>
      rw [hstage] at hinv
      exact ⟨(Nat.succ_le_succ hlength).trans hinv.1, hnone ip hinv.2⟩
  | reading ip =>
      rw [hstage] at hinv hstill
      exact ⟨(Nat.succ_le_succ hlength).trans hinv.1, hstill ip rfl⟩
  | storing ip count =>
      rw [hstage] at hinv hstill
      exact ⟨(Nat.succ_le_succ hlength).trans hinv.1, hstill ip rfl,
        (Nat.succ_le_succ (hcount ip)).trans hinv.2.2.1, hinv.2.2.2⟩
  | forking ip =>
      rw [hstage] at hinv
      exact ⟨(Nat.succ_le_succ hlength).trans hinv.1, (Nat.succ_le_succ (hfewer ip)).trans hinv.2⟩
  | recording ip number =>
      rw [hstage] at hinv
      exact fun child hchild => hinv child (List.mem_of_mem_filter hchild)
  | waiting => trivial
  | counting ip => trivial
  | clients ip => trivial
  | exited => trivial
  | undefined => trivial

/-- The handler waits for a child. -/
theorem Counted.handleSigchld (h : Counted n s) (hn : n < 2 ^ 32) {child : Process} (hchild : child ∈ s.children)
    (hpoints : ¬(handleSigchld s child.pid).Dangles) : Counted n (handleSigchld s child.pid) := by
  have hgone := countP_filter_pid h.pids hchild
  have hlength : (s.children.filter (·.pid ≠ child.pid)).length + 1 = s.children.length := by
    have hall := hgone fun _ => true
    rwa [List.countP_true] at hall
  have hsub : ∀ other ∈ s.children.filter (·.pid ≠ child.pid), other ∈ s.children ∧ other.pid ≠ child.pid := by
    intro other hother
    obtain ⟨hmem, hne⟩ := List.mem_filter.mp hother
    exact ⟨hmem, of_decide_eq_true hne⟩
  have htables : Sound (Ftpd.handleSigchld s child.pid).ipCount ∧ Sound (Ftpd.handleSigchld s child.pid).pidIp ∧
      (∀ ip, countOf (Ftpd.handleSigchld s child.pid).ipCount ip ≤ countOf s.ipCount ip) ∧
      (∀ ip, hashLookupEntry s.ipCount ip = none →
        hashLookupEntry (Ftpd.handleSigchld s child.pid).ipCount ip = none) ∧
      ∃ tokens : Nat → Finset Nat,
        (∀ pid ip, hashLookupEntry (Ftpd.handleSigchld s child.pid).pidIp pid = some ip → pid ∈ tokens ip) ∧
        (∀ other ∈ (Ftpd.handleSigchld s child.pid).children,
          (Ftpd.handleSigchld s child.pid).stage ≠ .recording other.ip other.pid → other.pid ∈ tokens other.ip) ∧
        ∀ ip, (tokens ip).card + pending (Ftpd.handleSigchld s child.pid).stage ip
          ≤ countOf (Ftpd.handleSigchld s child.pid).ipCount ip := by
    obtain ⟨tokens, hnumbers, hchildren, hroom⟩ := h.room
    dsimp only [Ftpd.handleSigchld]
    cases hlookup : hashLookupEntry s.pidIp child.pid with
    | none =>
        exact ⟨h.soundIp, h.soundPid, fun ip => le_rfl, fun ip hip => hip, tokens, hnumbers,
          fun other hother => hchildren other (hsub other hother).1, hroom⟩
    | some r =>
        obtain ⟨hsoundIp, hcount, hsame⟩ := h.soundIp.dropIpCount r
        obtain ⟨hsoundPid, hfree⟩ := h.soundPid.free child.pid
        dsimp only
        refine ⟨hsoundIp, hsoundPid, fun ip => ?_, fun ip hip => ?_,
          Function.update tokens r ((tokens r).erase child.pid), ?_, ?_,
          ?_⟩
        · rw [hcount]
          rcases eq_or_ne ip r with rfl | hne
          · rw [Function.update_self]
            exact Nat.sub_le _ _
          · rw [Function.update_of_ne hne]
        · rw [hsame ip (Or.inl hip), hip]
        -- only the number of the child is taken out
        · intro pid ip hip
          rw [hfree] at hip
          have hne : pid ≠ child.pid := by
            rintro rfl
            rw [Function.update_self] at hip
            exact absurd hip.symm (Option.some_ne_none ip)
          rw [Function.update_of_ne hne] at hip
          exact mem_erase_of_ne (hnumbers pid ip hip) hne
        · intro other hother hstage
          obtain ⟨hmem, hne⟩ := hsub other hother
          exact mem_erase_of_ne (hchildren other hmem hstage) hne
        · intro ip
          rw [hcount]
          rcases eq_or_ne ip r with rfl | hne
          · have hmem := hnumbers child.pid ip hlookup
            have hpos := Finset.card_pos.mpr ⟨_, hmem⟩
            have hle := hroom ip
            rw [Function.update_self, Function.update_self, Finset.card_erase_of_mem hmem]
            omega
          · rw [Function.update_of_ne hne, Function.update_of_ne hne]
            exact hroom ip
  obtain ⟨hsoundIp, hsoundPid, hcount, hnone, hroom⟩ := htables
  have hs := h.sChildren
  have hle := h.sChildren_le
  have hless : (s.sChildren + (2 ^ 32 - 1)) % 2 ^ 32 = s.sChildren - 1 := by omega
  constructor
  · exact hsoundIp
  · exact hsoundPid
  · rw [handleSigchld_children]
    exact h.pids.sublist (List.filter_sublist.map _)
  · rw [handleSigchld_children]
    exact fun other hother => h.pidLt other (hsub other hother).1
  · rw [handleSigchld_sChildren, handleSigchld_children, handleSigchld_stage, hless]
    omega
  · rw [handleSigchld_sChildren, handleSigchld_stage, hless]
    omega
  · intro ip
    rw [handleSigchld_stage]
    exact le_trans (Nat.add_le_add_right (hcount ip) _) (h.bounded ip)
  · exact hroom
  · exact h.stageInv_handleSigchld child.pid hpoints hcount hnone

/-! ### The loop -/

/-- The loop goes on without touching the tables or making a child. -/
theorem Counted.move (h : Counted n s) {n' : Nat} {s' : Server} (hchildren : s'.children = s.children)
    (hip : s'.ipCount = s.ipCount) (hpid : s'.pidIp = s.pidIp) (hstage : ∀ ip pid, s.stage ≠ .recording ip pid)
    (hpending : ∀ ip, pending s'.stage ip ≤ pending s.stage ip)
    (hs : s.children.length + counted s'.stage ≤ s'.sChildren) (hle : s'.sChildren + uncounted s'.stage ≤ n')
    (hbegun : begun s'.stage + n ≤ begun s.stage + n') (hinv : StageInv n' s') : Counted n' s' := by
  constructor
  · rw [hip]
    exact h.soundIp
  · rw [hpid]
    exact h.soundPid
  · rw [hchildren]
    exact h.pids
  · rw [hchildren]
    exact h.pidLt
  · rwa [hchildren]
  · exact hle
  · intro ip
    have hbounded := h.bounded ip
    rw [hip]
    omega
  · obtain ⟨tokens, hnumbers, hcovered, hroom⟩ := h.room
    rw [hip, hpid, hchildren]
    exact ⟨tokens, hnumbers, fun child hchild _ => hcovered child hchild (hstage _ _),
      fun ip => le_trans (Nat.add_le_add_left (hpending ip) _) (hroom ip)⟩
  · exact hinv

/-- The count of an address is written, one more than it was at least. -/
theorem Counted.countStep (h : Counted n s) {ip count : Nat} {hash : Hash Nat Nat} (hbegun : begun s.stage = 1)
    (hcounted : counted s.stage = 1) (huncounted : uncounted s.stage = 0)
    (hnot : ∀ i pid, s.stage ≠ .recording i pid) (hsound : Sound hash)
    (hcount : countOf hash = Function.update (countOf s.ipCount) ip count) (hlow : countOf s.ipCount ip + 1 ≤ count)
    (hhigh : count ≤ n) (hclients : s.children.length + 1 ≤ s.numClients) :
    Counted n { s with stage := .forking ip, ipCount := hash, numThisIp := count } := by
  have hbounded := h.bounded
  have hs := h.sChildren
  have hle := h.sChildren_le
  rw [hbegun] at hbounded
  rw [hcounted] at hs
  rw [huncounted] at hle
  constructor
  · exact hsound
  · exact h.soundPid
  · exact h.pids
  · exact h.pidLt
  · exact hs
  · exact hle
  · intro other
    have hother := hbounded other
    dsimp only
    rw [hcount]
    rcases eq_or_ne other ip with rfl | hne
    · rw [Function.update_self]
      exact hhigh
    · rw [Function.update_of_ne hne]
      exact le_trans (Nat.le_succ _) hother
  · obtain ⟨tokens, hnumbers, hcovered, hroom⟩ := h.room
    refine ⟨tokens, hnumbers, fun child hchild _ => hcovered child hchild (hnot _ _), fun other => ?_⟩
    have hother := hroom other
    dsimp only
    rw [hcount, pending]
    rcases eq_or_ne other ip with rfl | hne
    · rw [if_pos rfl, Function.update_self]
      omega
    · rw [if_neg hne.symm, Function.update_of_ne hne]
      omega
  · exact ⟨hclients, (Nat.succ_le_succ (h.childrenOf_le hnot)).trans hlow⟩

/-- A child is made. -/
theorem Counted.forkStep (h : Counted n s) {ip pid : Nat} (hstage : s.stage = .forking ip) (hpid : freePid s pid)
    (refusal : Option (Nat × String)) :
    Counted n { s with stage := .recording ip pid, children := ⟨pid, ip, refusal⟩ :: s.children } := by
  obtain ⟨-, hlt, hfree⟩ := hpid
  have hbounded := h.bounded
  have hs := h.sChildren
  have hle := h.sChildren_le
  rw [hstage] at hbounded hs hle
  constructor
  · exact h.soundIp
  · exact h.soundPid
  · refine List.nodup_cons.mpr ⟨fun hmem => ?_, h.pids⟩
    obtain ⟨child, hchild, heq⟩ := List.mem_map.mp hmem
    exact hfree child hchild heq
  · exact List.forall_mem_cons.mpr ⟨hlt, h.pidLt⟩
  · exact hs
  · exact hle
  · exact hbounded
  · obtain ⟨tokens, hnumbers, hcovered, hroom⟩ := h.room
    refine ⟨tokens, hnumbers, fun child hchild hrec => ?_, fun other => ?_⟩
    · rcases List.mem_cons.mp hchild with rfl | hchild
      · exact absurd rfl hrec
      · exact hcovered child hchild fun heq => Stage.noConfusion (hstage.symm.trans heq)
    · have hother := hroom other
      rw [hstage] at hother
      exact hother
  · intro child hchild heq
    rcases List.mem_cons.mp hchild with rfl | hchild
    · rfl
    · exact absurd heq (hfree child hchild)

/-- The address of a child is written down. -/
theorem Counted.recordStep (h : Counted n s) {ip pid : Nat} (hstage : s.stage = .recording ip pid) :
    Counted n { s with stage := .waiting, pidIp := hashAddEntry s.pidIp pid ip } := by
  have hbounded := h.bounded
  have hs := h.sChildren
  have hle := h.sChildren_le
  have hinv := h.stage
  rw [StageInv, hstage] at hinv
  rw [hstage] at hbounded hs hle
  obtain ⟨tokens, hnumbers, hcovered, hroom⟩ := h.room
  -- a number that is written down already keeps its address
  have hadd : Sound (hashAddEntry s.pidIp pid ip) ∧
      ∀ number r, hashLookupEntry (hashAddEntry s.pidIp pid ip) number = some r →
        hashLookupEntry s.pidIp number = some r ∨ number = pid ∧ r = ip := by
    cases hlookup : hashLookupEntry s.pidIp pid with
    | some old =>
        rw [hashAddEntry, hlookup]
        exact ⟨h.soundPid, fun _ _ hr => Or.inl hr⟩
    | none =>
        obtain ⟨hsound, hafter⟩ := h.soundPid.add ip hlookup
        refine ⟨hsound, fun number r hr => ?_⟩
        rw [hafter] at hr
        rcases eq_or_ne number pid with rfl | hne
        · rw [Function.update_self] at hr
          exact Or.inr ⟨rfl, (Option.some_inj.mp hr).symm⟩
        · rw [Function.update_of_ne hne] at hr
          exact Or.inl hr
  have hinsert : ∀ number r, number ∈ tokens r ∨ number = pid ∧ r = ip →
      number ∈ Function.update tokens ip (insert pid (tokens ip)) r := by
    rintro number r (hmem | ⟨rfl, rfl⟩)
    · rcases eq_or_ne r ip with rfl | hne
      · rw [Function.update_self]
        exact Finset.mem_insert_of_mem hmem
      · rwa [Function.update_of_ne hne]
    · rw [Function.update_self]
      exact Finset.mem_insert_self _ _
  constructor
  · exact h.soundIp
  · exact hadd.1
  · exact h.pids
  · exact h.pidLt
  · exact hs
  · exact hle
  · exact hbounded
  · refine ⟨Function.update tokens ip (insert pid (tokens ip)), fun number r hr => ?_, fun child hchild _ => ?_,
      fun r => ?_⟩
    · exact hinsert number r ((hadd.2 number r hr).imp_left (hnumbers number r))
    · refine hinsert _ _ ?_
      rcases eq_or_ne child.pid pid with heq | hne
      · exact Or.inr ⟨heq, hinv child hchild heq⟩
      · refine Or.inl (hcovered child hchild fun hrec => hne ?_)
        exact (Stage.recording.inj (hstage.symm.trans hrec)).2.symm
    · have hother := hroom r
      rw [hstage, pending] at hother
      rcases eq_or_ne r ip with rfl | hne
      · rw [if_pos rfl] at hother
        rw [Function.update_self]
        exact le_trans (Finset.card_insert_le _ _) hother
      · rw [if_neg hne.symm] at hother
        rwa [Function.update_of_ne hne]
  · trivial

/-- The loop goes on. -/
theorem Counted.loopStep (h : Counted n s) (hn : n < 2 ^ 32) : Counted n (loopStep s) := by
  have hs := h.sChildren
  have hle := h.sChildren_le
  have hbounded := h.bounded
  have hinv := h.stage
  have hnot : ∀ {stage : Stage}, s.stage = stage → (∀ ip pid, stage ≠ .recording ip pid) →
      ∀ ip pid, s.stage ≠ .recording ip pid := fun heq hne => heq ▸ hne
  rw [StageInv] at hinv
  rw [Ftpd.loopStep]
  split
  · rename_i ip hstage
    rw [hstage] at hs hle
    refine h.move rfl rfl rfl (hnot hstage (by simp)) (fun _ => Nat.zero_le _) hs hle ?_ ⟨hs, hle⟩
    rw [hstage]
    exact Nat.le_refl _
  · rename_i ip old hstage
    rw [hstage] at hinv
    obtain ⟨hold, hlt⟩ := hinv
    have hmod : (old + 1) % 2 ^ 32 = old + 1 := Nat.mod_eq_of_lt (by omega)
    refine h.move rfl rfl rfl (hnot hstage (by simp)) (fun _ => Nat.zero_le _) ?_ ?_ ?_ trivial
    · rw [hmod]
      exact Nat.succ_le_succ hold
    · rw [hmod]
      exact hlt
    · rw [hstage]
      exact Nat.le_refl _
  · rename_i ip hstage
    rw [hstage] at hs hle
    refine h.move rfl rfl rfl (hnot hstage (by simp)) (fun _ => Nat.zero_le _) hs hle ?_ hs
    rw [hstage]
    exact Nat.le_refl _
  · rename_i ip hstage
    rw [hstage] at hs hle hinv
    split_ifs with hlookup
    · refine h.move rfl rfl rfl (hnot hstage (by simp)) (fun _ => Nat.zero_le _) hs hle ?_ ⟨hinv, hlookup⟩
      rw [hstage]
      exact Nat.le_refl _
    · refine h.move rfl rfl rfl (hnot hstage (by simp)) (fun _ => Nat.zero_le _) hs hle ?_ ⟨hinv, hlookup⟩
      rw [hstage]
      exact Nat.le_refl _
  · rename_i ip hstage
    rw [hstage] at hinv
    have hcount : countOf s.ipCount ip = 0 := by rw [countOf, hinv.2, Option.getD_none]
    have hone := hbounded ip
    rw [hstage, hcount] at hone
    obtain ⟨hsound, hafter⟩ := h.soundIp.add 1 hinv.2
    exact h.countStep (by rw [hstage]; rfl) (by rw [hstage]; rfl) (by rw [hstage]; rfl) (hnot hstage (by simp)) hsound
      (countOf_eq_update hafter) (by rw [hcount]) hone hinv.1
  · rename_i ip hstage
    rw [hstage] at hs hle hinv
    have hone : countOf s.ipCount ip + 1 ≤ n := by
      have hother := hbounded ip
      rwa [hstage] at hother
    have hmod : (countOf s.ipCount ip + 1) % 2 ^ 32 = countOf s.ipCount ip + 1 := Nat.mod_eq_of_lt (by omega)
    refine h.move rfl rfl rfl (hnot hstage (by simp)) (fun _ => Nat.zero_le _) hs hle ?_ ?_
    · rw [hstage]
      exact Nat.le_refl _
    · rw [hmod]
      exact ⟨hinv.1, hinv.2, Nat.le_refl _, hone⟩
  · rename_i ip count hstage
    rw [hstage] at hinv
    obtain ⟨old, hold⟩ := Option.ne_none_iff_exists'.mp hinv.2.1
    obtain ⟨hsound, hafter⟩ := h.soundIp.store count hold
    exact h.countStep (by rw [hstage]; rfl) (by rw [hstage]; rfl) (by rw [hstage]; rfl) (hnot hstage (by simp)) hsound
      (countOf_eq_update hafter) hinv.2.2.1 hinv.2.2.2 hinv.1
  · rename_i ip pid hstage
    exact h.recordStep hstage
  · exact h
  · exact h
  · exact h
  · exact h

/-- Whether a connection is accepted. -/
def isAccept : Event → Bool
  | .accept _ => true
  | _ => false

theorem StageInv.mono {n' : Nat} (h : StageInv n s) (hle : n ≤ n') : StageInv n' s := by
  rw [StageInv] at h ⊢
  cases hstage : s.stage with
  | incrementing ip old =>
      rw [hstage] at h
      exact ⟨h.1, h.2.trans hle⟩
  | storing ip count =>
      rw [hstage] at h
      exact ⟨h.1, h.2.1, h.2.2.1, h.2.2.2.trans hle⟩
  | _ =>
      rw [hstage] at h
      exact h

theorem Counted.mono (h : Counted n s) {n' : Nat} (hle : n ≤ n') : Counted n' s :=
  ⟨h.soundIp, h.soundPid, h.pids, h.pidLt, h.sChildren, h.sChildren_le.trans hle,
    fun ip => le_trans (h.bounded ip) hle, h.room, h.stage.mono hle⟩

/-- Every step keeps the counts, up to a step without a meaning. -/
theorem Counted.step (h : Counted n s) (tunable : Tunables) (event : Event)
    (hn : n + (isAccept event).toNat < 2 ^ 32) :
    Counted (n + (isAccept event).toNat) (serverStep tunable s event).1 ∨
      (serverStep tunable s event).1.stage = .undefined := by
  have hstay : Counted (n + (isAccept event).toNat) s := h.mono (Nat.le_add_right _ _)
  have hs := h.sChildren
  have hle := h.sChildren_le
  cases event with
  | accept ip =>
      rw [serverStep]
      split
      · rename_i hstage
        rw [hstage] at hs hle
        refine Or.inl (h.move rfl rfl rfl ?_ (fun _ => Nat.zero_le _) hs (Nat.succ_le_succ hle) ?_ trivial)
        · exact fun _ _ hrec => Stage.noConfusion (hstage.symm.trans hrec)
        · rw [hstage]
          exact (Nat.add_comm 1 n).le.trans (Nat.le_add_left _ _)
      · exact Or.inl hstay
  | next => exact Or.inl (h.loopStep hn)
  | fork number =>
      cases number with
      | none =>
          rw [serverStep]
          split
          · rename_i ip hstage
            rw [hstage] at hs hle
            have hone : s.children.length + 1 ≤ s.sChildren := hs
            have hless : (s.sChildren + (2 ^ 32 - 1)) % 2 ^ 32 = s.sChildren - 1 := by omega
            refine Or.inl (h.move rfl rfl rfl ?_ (fun _ => Nat.zero_le _) ?_ ?_ ?_ trivial)
            · exact fun _ _ hrec => Stage.noConfusion (hstage.symm.trans hrec)
            · rw [hless]
              exact Nat.le_sub_one_of_lt hone
            · rw [hless]
              exact (Nat.sub_le _ _).trans hle
            · rw [hstage]
              exact Nat.le_refl _
          · exact Or.inl hstay
      | some pid =>
          rw [serverStep]
          split
          · rename_i ip hstage
            split_ifs with hpid
            · exact Or.inl (h.forkStep hstage hpid _)
            · exact Or.inl hstay
          · exact Or.inl hstay
  | reap pid =>
      rw [serverStep]
      split_ifs with hreap hpoints
      · exact Or.inr rfl
      · obtain ⟨-, -, child, hchild, rfl⟩ := hreap
        exact Or.inl (h.handleSigchld hn hchild hpoints)
      · exact Or.inl hstay
  | reapInside pid =>
      rw [serverStep]
      split_ifs with hinside
      · exact Or.inr rfl
      · exact Or.inl hstay

/-- A run without a meaning stays one. -/
theorem serverStep_undefined (tunable : Tunables) (event : Event) (h : s.stage = .undefined) :
    (serverStep tunable s event).1 = s := by
  cases event with
  | accept ip => rw [serverStep, h]
  | next => rw [serverStep, loopStep, h]
  | fork number => cases number <;> rw [serverStep, h]
  | reap pid => rw [serverStep, if_neg fun hreap => hreap.2.1 h]
  | reapInside pid =>
      rw [serverStep, h]
      rfl

/-! ### The count of the children -/

/-- A child is waited for between the read and the store of `++s_children`. -/
def losesCount (s : Server) : Event → Bool
  | .reap pid => s.stage.inIncrement && s.HasChild pid
  | .accept _ | .next | .fork _ | .reapInside _ => false

/-- How often that happens in a run. -/
def lostCounts (tunable : Tunables) : Server → List Event → Nat
  | _, [] => 0
  | s, event :: events => (losesCount s event).toNat + lostCounts tunable (serverStep tunable s event).1 events

/-- `s_children`, or what is to be stored in it, counts the children and `lost` more. -/
def ChildrenInv (lost : Nat) (s : Server) : Prop :=
  match s.stage with
  | .incrementing _ old => old = s.children.length + lost
  | stage => s.sChildren = s.children.length + counted stage + lost

theorem childrenInv_of_ne {lost : Nat} (hstage : ∀ ip old, s.stage ≠ .incrementing ip old) :
    ChildrenInv lost s ↔ s.sChildren = s.children.length + counted s.stage + lost := by
  rw [ChildrenInv]
  split
  · rename_i ip old heq
    exact absurd heq (hstage ip old)
  · exact Iff.rfl

/-- Every step keeps the count of the children, but for what it loses. -/
theorem ChildrenInv.step {lost : Nat} (h : ChildrenInv lost s) (hcounted : Counted n s) (hn : n < 2 ^ 32)
    (tunable : Tunables) (event : Event) :
    ChildrenInv (lost + (losesCount s event).toNat) (serverStep tunable s event).1 ∨
      (serverStep tunable s event).1.stage = .undefined := by
  have hs := hcounted.sChildren
  have hle := hcounted.sChildren_le
  rw [ChildrenInv] at h
  cases event with
  | accept ip =>
      rw [serverStep, losesCount, Bool.toNat_false, Nat.add_zero]
      cases hstage : s.stage with
      | waiting =>
          rw [hstage] at h
          exact Or.inl h
      | _ =>
          rw [hstage] at h
          refine Or.inl ?_
          rw [ChildrenInv, hstage]
          exact h
  | next =>
      rw [serverStep, losesCount, Bool.toNat_false, Nat.add_zero]
      refine Or.inl ?_
      dsimp only
      rw [loopStep]
      cases hstage : s.stage with
      | incrementing ip old =>
          have hinv := hcounted.stage
          rw [StageInv, hstage] at hinv
          rw [hstage] at h
          have hmod : (old + 1) % 2 ^ 32 = old + 1 := Nat.mod_eq_of_lt (by omega)
          have hold : old = s.children.length + lost := h
          show (old + 1) % 2 ^ 32 = s.children.length + 1 + lost
          omega
      | addresses ip =>
          rw [hstage] at h
          dsimp only
          split_ifs
          · exact h
          · exact h
      | _ =>
          rw [hstage] at h
          first
            | exact h
            | rw [ChildrenInv, hstage]
              exact h
  | fork number =>
      rw [losesCount, Bool.toNat_false, Nat.add_zero]
      cases hstage : s.stage with
      | forking ip =>
          rw [hstage] at h hs hle
          have hcount : s.sChildren = s.children.length + 1 + lost := h
          cases number with
          | none =>
              rw [serverStep, hstage]
              refine Or.inl ?_
              show (s.sChildren + (2 ^ 32 - 1)) % 2 ^ 32 = s.children.length + 0 + lost
              have hbound : s.sChildren ≤ n := hle
              omega
          | some pid =>
              rw [serverStep, hstage]
              dsimp only
              split_ifs
              · refine Or.inl ?_
                show s.sChildren = (s.children.length + 1) + 0 + lost
                omega
              · refine Or.inl ?_
                rw [ChildrenInv, hstage]
                exact h
      | _ =>
          rw [hstage] at h
          refine Or.inl ?_
          cases number <;>
            · rw [serverStep, hstage, ChildrenInv, hstage]
              exact h
  | reap pid =>
      rw [serverStep]
      split_ifs with hreap hpoints
      · exact Or.inr rfl
      · obtain ⟨-, -, child, hchild, rfl⟩ := hreap
        have hgone := countP_filter_pid hcounted.pids hchild fun _ => true
        rw [List.countP_true, Bool.toNat_true] at hgone
        refine Or.inl ?_
        rw [ChildrenInv, handleSigchld_stage, handleSigchld_children, handleSigchld_sChildren, losesCount]
        rw [decide_eq_true (show s.HasChild child.pid from ⟨child, hchild, rfl⟩), Bool.and_true]
        cases hstage : s.stage with
        | incrementing ip old =>
            rw [hstage] at h
            have hold : old = s.children.length + lost := h
            show old = _ + (lost + 1)
            omega
        | _ =>
            rw [hstage] at h hs
            dsimp only at h hs
            show (s.sChildren + (2 ^ 32 - 1)) % 2 ^ 32 = _ + _ + (lost + 0)
            omega
      · have hstays : losesCount s (.reap pid) = false := by
          rw [losesCount, Bool.and_eq_false_iff, decide_eq_false_iff_not]
          by_contra hboth
          rw [not_or, not_not, Bool.not_eq_false] at hboth
          refine hreap ⟨fun heq => ?_, fun heq => ?_, hboth.2⟩ <;>
          · rw [heq] at hboth
            exact Bool.noConfusion hboth.1
        rw [hstays, Bool.toNat_false]
        exact Or.inl h
  | reapInside pid =>
      rw [serverStep, losesCount, Bool.toNat_false, Nat.add_zero]
      split_ifs
      · exact Or.inr rfl
      · exact Or.inl h

end Counted

/-! ## The limits -/

/-- The sessions that have not been refused are within the limits, in all and for every address. -/
structure Within (tunable : Tunables) (s : Server) : Prop where
  clients : 0 < tunable.maxClients → s.children.countP (·.refusal.isNone) ≤ tunable.maxClients
  addresses : 0 < tunable.maxPerIp →
    ∀ ip, s.children.countP (fun child => child.refusal.isNone && child.ip = ip) ≤ tunable.maxPerIp

section Within

variable {tunable : Tunables} {n : Nat} {s s' : Server}

theorem Within.of_children (h : Within tunable s) (hchildren : s'.children.Sublist s.children) : Within tunable s' :=
  ⟨fun hpos => le_trans hchildren.countP_le (h.clients hpos),
    fun hpos ip => le_trans hchildren.countP_le (h.addresses hpos ip)⟩

/-- A session that is not refused is within the limits of its counts. -/
theorem le_of_checkLimits {numClients numThisIp : Nat} (h : checkLimits tunable numClients numThisIp = none) :
    (0 < tunable.maxClients → numClients ≤ tunable.maxClients) ∧
      (0 < tunable.maxPerIp → numThisIp ≤ tunable.maxPerIp) := by
  rw [checkLimits] at h
  split_ifs at h with hclients haddress
  exact ⟨fun hpos => not_lt.mp fun hlt => hclients ⟨hpos, hlt⟩, fun hpos => not_lt.mp fun hlt => haddress ⟨hpos, hlt⟩⟩

/-- A child is made whose counts include it. -/
theorem Within.forkStep (h : Within tunable s) (hcounted : Counted n s) {ip pid : Nat}
    (hstage : s.stage = .forking ip) :
    Within tunable { s with
      stage := .recording ip pid
      children := ⟨pid, ip, checkLimits tunable s.numClients s.numThisIp⟩ :: s.children } := by
  have hinv := hcounted.stage
  rw [StageInv, hstage] at hinv
  obtain ⟨hclients, haddress⟩ := hinv
  cases hrefusal : checkLimits tunable s.numClients s.numThisIp with
  | some refusal =>
      refine ⟨fun hpos => ?_, fun hpos other => ?_⟩
      · rw [List.countP_cons_of_neg (by simp)]
        exact h.clients hpos
      · rw [List.countP_cons_of_neg (by simp)]
        exact h.addresses hpos other
  | none =>
      obtain ⟨hmaxClients, hmaxPerIp⟩ := le_of_checkLimits hrefusal
      refine ⟨fun hpos => ?_, fun hpos other => ?_⟩
      · have hall : s.children.countP (·.refusal.isNone) ≤ s.children.length := List.countP_le_length
        have hmax := hmaxClients hpos
        rw [List.countP_cons_of_pos rfl]
        omega
      · by_cases hip : ip = other
        · subst hip
          have hall : s.children.countP (fun child => child.refusal.isNone && child.ip = ip) ≤ childrenOf s ip :=
            List.countP_mono_left fun child _ hchild => (Bool.and_eq_true_iff.mp hchild).2
          have hmax := hmaxPerIp hpos
          rw [List.countP_cons_of_pos (by simp)]
          omega
        · rw [List.countP_cons_of_neg (by simp [hip])]
          exact h.addresses hpos other

/-- The loop makes and ends no child. -/
theorem loopStep_children (s : Server) : (loopStep s).children = s.children := by
  rw [loopStep]
  split <;> rfl

/-- Every step keeps the limits. -/
theorem Within.step (h : Within tunable s) (hcounted : Counted n s) (event : Event) :
    Within tunable (serverStep tunable s event).1 := by
  cases event with
  | accept ip =>
      rw [serverStep]
      split <;> exact h.of_children (List.Sublist.refl _)
  | next =>
      refine h.of_children ?_
      rw [serverStep, loopStep_children]
  | fork number =>
      cases number with
      | none =>
          rw [serverStep]
          split <;> exact h.of_children (List.Sublist.refl _)
      | some pid =>
          rw [serverStep]
          split
          · rename_i ip hstage
            split_ifs with hpid
            · exact h.forkStep hcounted hstage
            · exact h
          · exact h
  | reap pid =>
      have hfewer : (handleSigchld s pid).children.Sublist s.children := by
        rw [handleSigchld_children]
        exact List.filter_sublist
      rw [serverStep]
      split_ifs
      · exact h.of_children hfewer
      · exact h.of_children hfewer
      · exact h
  | reapInside pid =>
      rw [serverStep]
      split_ifs
      · exact h.of_children (List.Sublist.refl _)
      · exact h

/-- A run that has no meaning any more keeps none. -/
theorem runSteps_undefined (tunable : Tunables) (events : List Event) (h : s.stage = .undefined) :
    (runSteps (serverStep tunable) s events).1.stage = .undefined := by
  induction events with
  | nil => exact h
  | cons event events ih => rwa [runSteps_cons, prepend_fst, serverStep_undefined tunable event h]

/-- The counts and the limits over a run. -/
theorem within_run (tunable : Tunables) (events : List Event) (lost : Nat) (hcounted : Counted n s)
    (hchildren : ChildrenInv lost s) (h : Within tunable s) (hn : n + events.countP isAccept < 2 ^ 32)
    (hdefined : (runSteps (serverStep tunable) s events).1.stage ≠ .undefined) :
    Counted (n + events.countP isAccept) (runSteps (serverStep tunable) s events).1 ∧
      ChildrenInv (lost + lostCounts tunable s events) (runSteps (serverStep tunable) s events).1 ∧
      Within tunable (runSteps (serverStep tunable) s events).1 := by
  induction events generalizing s n lost with
  | nil => exact ⟨hcounted, hchildren, h⟩
  | cons event events ih =>
      have hcons : (event :: events).countP isAccept = (isAccept event).toNat + events.countP isAccept := by
        rw [List.countP_cons, Nat.add_comm]
        cases isAccept event <;> rfl
      rw [hcons, ← Nat.add_assoc] at hn ⊢
      rw [runSteps_cons, prepend_fst] at hdefined ⊢
      have hnext : (serverStep tunable s event).1.stage ≠ .undefined :=
        fun hstage => hdefined (runSteps_undefined tunable events hstage)
      rw [lostCounts, ← Nat.add_assoc]
      exact ih _ ((hcounted.step tunable event (by omega)).resolve_right hnext)
        ((hchildren.step hcounted (by omega) tunable event).resolve_right hnext) (h.step hcounted event) hn hdefined

/-- **The limits hold whenever a child ends**: over the first 2^32 connections, in whatever order children end, their
numbers are given again, and the handler comes between the accesses of the loop, as long as it does not run inside a
function of the hash table nor frees the entry that is in use: the sessions that were not refused are no more than
`tunable_max_clients`, and no more than `tunable_max_per_ip` for any address. And `s_children` is no less than the
number of the children; it is larger by one for each child that was waited for in the middle of `++s_children`. -/
theorem limits_hold (tunable : Tunables) (events : List Event) (hfew : events.countP isAccept < 2 ^ 32)
    (hdefined : (runSteps (serverStep tunable) serverInit events).1.stage ≠ .undefined) :
    let s := (runSteps (serverStep tunable) serverInit events).1
    Within tunable s ∧ s.children.length + counted s.stage ≤ s.sChildren ∧
      ((∀ ip old, s.stage ≠ .incrementing ip old) →
        s.sChildren = s.children.length + counted s.stage + lostCounts tunable serverInit events) := by
  obtain ⟨hcounted, hchildren, hwithin⟩ := within_run tunable events 0 counted_serverInit rfl
    ⟨fun _ => Nat.zero_le _, fun _ _ => Nat.zero_le _⟩ (by rwa [Nat.zero_add]) hdefined
  rw [Nat.zero_add] at hchildren
  exact ⟨hwithin, hcounted.sChildren, fun hstage => (childrenInv_of_ne hstage).mp hchildren⟩

end Within

/-- What happens when a connection is accepted, up to the entry of the child in the table. -/
def connect (ip pid : Nat) : List Event :=
  [.accept ip, .next, .next, .next, .next, .next, .next, .fork (some pid), .next]

/-- Two connections, one of an address that has a child already; then the first child ends in the middle of
`++s_children`. -/
def threeConnections : List Event :=
  connect 7 100 ++ connect 7 101 ++ [.accept 8, .next, .reap 100] ++ (connect 8 102).drop 2

/-- With one connection for each address, the second one of an address is refused, and a child that ends at the wrong
time is counted for good. -/
theorem limits_hold_threeConnections :
    (Within ⟨3, 1⟩ (runSteps (serverStep ⟨3, 1⟩) serverInit threeConnections).1 ∧
      (runSteps (serverStep ⟨3, 1⟩) serverInit threeConnections).1.sChildren = 2 + 0 + 1) ∧
      (runSteps (serverStep ⟨3, 1⟩) serverInit threeConnections).2
        = [(421, "There are too many connections from your internet address.")] := by
  obtain ⟨hwithin, -, hcount⟩ := limits_hold ⟨3, 1⟩ threeConnections (by decide) (by decide)
  have hstage : (runSteps (serverStep ⟨3, 1⟩) serverInit threeConnections).1.stage = .waiting := by decide
  refine ⟨⟨hwithin, ?_⟩, by decide⟩
  rw [hcount fun ip old heq => Stage.noConfusion (hstage.symm.trans heq)]
  decide

end QLog.Ftpd
