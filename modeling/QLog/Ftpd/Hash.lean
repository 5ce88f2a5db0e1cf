import Mathlib.Data.Fintype.Card
import QLog.Library.DoublyLinked
import QLog.Library.Transducer

/-! # The hash table of the FTP server

The table has one doubly linked list of nodes for each bucket. `Repr` is what its functions keep: every bucket points
to the front of its list, no node is in two lists, and a key is only in the list of its bucket, and only once.
`Holds` says which map the table holds. -/

namespace QLog.Ftpd

open Library

universe u v

/-- `struct hash`, with the memory its nodes are in. A bucket out of range ends the program; with a hash function that
stays in range there is none. -/
structure Hash (κ : Type u) (ν : Type v) where
  buckets : Nat
  hashFunc : Nat → κ → Nat
  inRange : ∀ key, hashFunc buckets key < buckets
  nodes : Nat → Option Nat
  mem : Arena (κ × ν)

section Functions

variable {κ : Type u} {ν : Type v}

/-- `hash_alloc` -/
def hashAlloc (buckets : Nat) (hashFunc : Nat → κ → Nat) (inRange : ∀ key, hashFunc buckets key < buckets) :
    Hash κ ν :=
  ⟨buckets, hashFunc, inRange, fun _ => none, Arena.empty⟩

/-- `hash_get_bucket` -/
def hashGetBucket (hash : Hash κ ν) (key : κ) : Nat := hash.hashFunc hash.buckets key

variable [DecidableEq κ]

/-- `hash_get_node_by_key`: no list is longer than there are addresses that have been used. -/
def hashGetNodeByKey (hash : Hash κ ν) (key : κ) : Option Nat :=
  hash.mem.find (fun entry => entry.1 = key) (hash.mem.fresh + 1) (hash.nodes (hashGetBucket hash key))

/-- `hash_lookup_entry`: what the pointer to the value points to. -/
def hashLookupEntry (hash : Hash κ ν) (key : κ) : Option ν :=
  (hashGetNodeByKey hash key).bind fun node => (hash.mem.cells node).map (·.value.2)

/-- `hash_add_entry` -/
def hashAddEntry (hash : Hash κ ν) (key : κ) (value : ν) : Hash κ ν :=
  match hashLookupEntry hash key with
  | some _ => hash
  | none =>
      let node := hash.mem.fresh
      let mem := hash.mem.alloc ⟨(key, value), none, none⟩
      let bucket := hashGetBucket hash key
      match hash.nodes bucket with
      | none => { hash with mem := mem, nodes := Function.update hash.nodes bucket (some node) }
      | some front =>
          { hash with
            mem := (mem.setNext (some node) (some front)).setPrev (some front) (some node)
            nodes := Function.update hash.nodes bucket (some node) }

/-- `hash_free_entry` -/
def hashFreeEntry (hash : Hash κ ν) (key : κ) : Hash κ ν :=
  match (hashGetNodeByKey hash key).bind fun node => (hash.mem.cells node).map (Prod.mk node) with
  | none => hash
  | some (node, cell) =>
      { hash with
        mem := hash.mem.unlink node cell
        nodes := match cell.prev with
          | some _ => hash.nodes
          | none => Function.update hash.nodes (hashGetBucket hash key) cell.next }

/-- `*p = value`, where `p` is what `hash_lookup_entry` returned for the key. -/
def hashStoreEntry (hash : Hash κ ν) (key : κ) (value : ν) : Hash κ ν :=
  match hashGetNodeByKey hash key with
  | none => hash
  | some node => { hash with mem := hash.mem.setValue node (key, value) }

/-- A new node is written the same in front of an empty list and of one that is not. -/
theorem hashAddEntry_of_none {hash : Hash κ ν} {key : κ} {value : ν} (h : hashLookupEntry hash key = none) :
    hashAddEntry hash key value =
      { hash with
        mem := (hash.mem.alloc ⟨(key, value), none, hash.nodes (hashGetBucket hash key)⟩).setPrev
          (hash.nodes (hashGetBucket hash key)) (some hash.mem.fresh)
        nodes := Function.update hash.nodes (hashGetBucket hash key) (some hash.mem.fresh) } := by
  rw [hashAddEntry, h]
  dsimp only
  cases hash.nodes (hashGetBucket hash key) with
  | none => rfl
  | some front =>
      dsimp only
      rw [Arena.setNext_alloc]

end Functions

/-! ## What the functions keep -/

section Repr

variable {κ : Type u} {ν : Type v}

/-- The lists of the buckets: the addresses of their nodes, and their entries. -/
structure Repr (hash : Hash κ ν) (chain : Nat → List Nat) (entries : Nat → List (κ × ν)) : Prop where
  linked : ∀ bucket, DLinked hash.mem none (chain bucket) (entries bucket)
  front : ∀ bucket, hash.nodes bucket = (chain bucket).head?
  nodup : ∀ bucket, (chain bucket).Nodup
  apart : ∀ bucket other, bucket ≠ other → (chain bucket).Disjoint (chain other)
  used : ∀ bucket, ∀ node ∈ chain bucket, node < hash.mem.fresh
  owned : ∀ node, hash.mem.cells node ≠ none → ∃ bucket, node ∈ chain bucket
  hashed : ∀ bucket, ∀ entry ∈ entries bucket, hashGetBucket hash entry.1 = bucket
  keys : ∀ bucket, ((entries bucket).map Prod.fst).Nodup

/-- The table holds a map. -/
def Holds (hash : Hash κ ν) (map : κ → Option ν) : Prop :=
  ∃ chain entries, Repr hash chain entries ∧
    ∀ key value, map key = some value ↔ (key, value) ∈ entries (hashGetBucket hash key)

variable {hash : Hash κ ν} {chain : Nat → List Nat} {entries : Nat → List (κ × ν)} {map : κ → Option ν} {key : κ}

/-- A new table is empty. -/
theorem holds_hashAlloc (buckets : Nat) (hashFunc : Nat → κ → Nat)
    (inRange : ∀ key, hashFunc buckets key < buckets) :
    Holds (hashAlloc buckets hashFunc inRange : Hash κ ν) fun _ => none := by
  refine ⟨fun _ => [], fun _ => [], ⟨fun _ => rfl, fun _ => rfl, fun _ => List.nodup_nil, ?_, ?_, ?_, ?_, ?_⟩, ?_⟩
  · exact fun _ _ _ => List.disjoint_nil_left _
  · exact fun _ _ hnode => absurd hnode List.not_mem_nil
  · exact fun _ hcell => absurd rfl hcell
  · exact fun _ _ hentry => absurd hentry List.not_mem_nil
  · exact fun _ => List.nodup_nil
  · intro key value
    exact ⟨fun h => absurd h.symm (Option.some_ne_none value), fun h => absurd h List.not_mem_nil⟩

/-- A list is not longer than there are used addresses. -/
theorem Repr.length_le (h : Repr hash chain entries) (bucket : Nat) : (chain bucket).length ≤ hash.mem.fresh := by
  have hsub : (chain bucket).toFinset ⊆ Finset.range hash.mem.fresh := by
    intro node hnode
    exact Finset.mem_range.mpr (h.used bucket node (List.mem_toFinset.mp hnode))
  have hcard := Finset.card_le_card hsub
  rwa [List.toFinset_card_of_nodup (h.nodup bucket), Finset.card_range] at hcard

/-- The next address is in no list. -/
theorem Repr.fresh_not_mem (h : Repr hash chain entries) (bucket : Nat) : hash.mem.fresh ∉ chain bucket :=
  fun hmem => Nat.lt_irrefl _ (h.used bucket _ hmem)

/-- The table when the list of one bucket has been changed. -/
theorem Repr.change (h : Repr hash chain entries) {hash' : Hash κ ν} {bucket : Nat} {ps : List Nat}
    {xs : List (κ × ν)} (hbucket : hashGetBucket hash' = hashGetBucket hash) (hlinked : DLinked hash'.mem none ps xs)
    (hnodes : hash'.nodes = Function.update hash.nodes bucket ps.head?) (hnodup : ps.Nodup)
    (hnew : ∀ node ∈ ps, node ∈ chain bucket ∨ node = hash.mem.fresh)
    (hfresh : hash.mem.fresh ≤ hash'.mem.fresh) (hused : ∀ node ∈ ps, node < hash'.mem.fresh)
    (hsame : ∀ node, node ∉ chain bucket → node ≠ hash.mem.fresh → hash'.mem.cells node = hash.mem.cells node)
    (howned : ∀ node, hash'.mem.cells node ≠ none → node ∈ chain bucket ∨ node = hash.mem.fresh → node ∈ ps)
    (hhashed : ∀ entry ∈ xs, hashGetBucket hash entry.1 = bucket) (hkeys : (xs.map Prod.fst).Nodup) :
    Repr hash' (Function.update chain bucket ps) (Function.update entries bucket xs) := by
  -- a node of another list is neither a node of this one nor the new one
  have hother : ∀ other, other ≠ bucket → ∀ node ∈ chain other, node ∉ chain bucket ∧ node ≠ hash.mem.fresh := by
    intro other hne node hnode
    exact ⟨fun hmem => h.apart other bucket hne hnode hmem, fun heq => h.fresh_not_mem other (heq ▸ hnode)⟩
  have hdisjoint : ∀ other, other ≠ bucket → ps.Disjoint (chain other) := by
    intro other hne node hps hnode
    obtain ⟨hchain, hnot⟩ := hother other hne node hnode
    rcases hnew node hps with hmem | heq
    · exact hchain hmem
    · exact hnot heq
  constructor
  · intro b
    rcases eq_or_ne b bucket with rfl | hne
    · rwa [Function.update_self, Function.update_self]
    · rw [Function.update_of_ne hne, Function.update_of_ne hne]
      exact (h.linked b).frame fun node hnode =>
        hsame node (hother b hne node hnode).1 (hother b hne node hnode).2
  · intro b
    rw [hnodes]
    rcases eq_or_ne b bucket with rfl | hne
    · rw [Function.update_self, Function.update_self]
    · rw [Function.update_of_ne hne, Function.update_of_ne hne, h.front]
  · intro b
    rcases eq_or_ne b bucket with rfl | hne
    · rwa [Function.update_self]
    · rw [Function.update_of_ne hne]
      exact h.nodup b
  · intro b c hbc
    rcases eq_or_ne b bucket with rfl | hb
    · rw [Function.update_self, Function.update_of_ne hbc.symm]
      exact hdisjoint c hbc.symm
    · rcases eq_or_ne c bucket with rfl | hc
      · rw [Function.update_self, Function.update_of_ne hb]
        exact (hdisjoint b hb).symm
      · rw [Function.update_of_ne hb, Function.update_of_ne hc]
        exact h.apart b c hbc
  · intro b node hnode
    rcases eq_or_ne b bucket with rfl | hne
    · rw [Function.update_self] at hnode
      exact hused node hnode
    · rw [Function.update_of_ne hne] at hnode
      exact Nat.lt_of_lt_of_le (h.used b node hnode) hfresh
  · intro node hcell
    by_cases hmem : node ∈ chain bucket ∨ node = hash.mem.fresh
    · refine ⟨bucket, ?_⟩
      rw [Function.update_self]
      exact howned node hcell hmem
    · obtain ⟨hchain, hnot⟩ := not_or.mp hmem
      rw [hsame node hchain hnot] at hcell
      obtain ⟨b, hnode⟩ := h.owned node hcell
      have hne : b ≠ bucket := fun heq => hchain (heq ▸ hnode)
      exact ⟨b, by rwa [Function.update_of_ne hne]⟩
  · intro b entry hentry
    rw [hbucket]
    rcases eq_or_ne b bucket with rfl | hne
    · rw [Function.update_self] at hentry
      exact hhashed entry hentry
    · rw [Function.update_of_ne hne] at hentry
      exact h.hashed b entry hentry
  · intro b
    rcases eq_or_ne b bucket with rfl | hne
    · rwa [Function.update_self]
    · rw [Function.update_of_ne hne]
      exact h.keys b

/-- The table when the list of one bucket has been changed, without a new node. -/
theorem Repr.change_within (h : Repr hash chain entries) {hash' : Hash κ ν} {bucket : Nat} {ps : List Nat}
    {xs : List (κ × ν)} (hbucket : hashGetBucket hash' = hashGetBucket hash) (hlinked : DLinked hash'.mem none ps xs)
    (hnodes : hash'.nodes = Function.update hash.nodes bucket ps.head?) (hnodup : ps.Nodup)
    (hold : ∀ node ∈ ps, node ∈ chain bucket) (hfresh : hash'.mem.fresh = hash.mem.fresh)
    (hsame : ∀ node, node ∉ chain bucket → hash'.mem.cells node = hash.mem.cells node)
    (howned : ∀ node, hash'.mem.cells node ≠ none → node ∈ chain bucket → node ∈ ps)
    (hhashed : ∀ entry ∈ xs, hashGetBucket hash entry.1 = bucket) (hkeys : (xs.map Prod.fst).Nodup) :
    Repr hash' (Function.update chain bucket ps) (Function.update entries bucket xs) := by
  refine h.change hbucket hlinked hnodes hnodup (fun node hnode => Or.inl (hold node hnode)) hfresh.ge ?_
    (fun node hnode _ => hsame node hnode) ?_ hhashed hkeys
  · intro node hnode
    exact hfresh ▸ h.used bucket node (hold node hnode)
  · rintro node hcell (hmem | rfl)
    · exact howned node hcell hmem
    -- nothing is at an address that has not been used
    · rw [hsame _ (h.fresh_not_mem bucket)] at hcell
      obtain ⟨b, hnode⟩ := h.owned _ hcell
      exact absurd hnode (h.fresh_not_mem b)

/-- The other entries of the bucket have other keys. -/
theorem Repr.others (h : Repr hash chain entries) {value : ν} {us vs : List (κ × ν)}
    (hentries : entries (hashGetBucket hash key) = us ++ (key, value) :: vs) :
    ((us ++ vs).map Prod.fst).Nodup ∧ ∀ entry ∈ us ++ vs, entry.1 ≠ key := by
  have hkeys := h.keys (hashGetBucket hash key)
  rw [hentries, List.map_append, List.map_cons] at hkeys
  obtain ⟨hnot, hnodup⟩ := List.nodup_middle.mp hkeys |> List.nodup_cons.mp
  rw [← List.map_append] at hnot hnodup
  exact ⟨hnodup, fun entry hentry heq => hnot (List.mem_map.mpr ⟨entry, hentry, heq⟩)⟩

/-- The nodes in memory are the entries of the map, one for each. -/
theorem Holds.nodes_iff (h : Holds hash map) :
    (∀ key value, map key = some value ↔ ∃ node cell, hash.mem.cells node = some cell ∧ cell.value = (key, value)) ∧
      ∀ node other cell cell', hash.mem.cells node = some cell → hash.mem.cells other = some cell' →
        cell.value.1 = cell'.value.1 → node = other := by
  obtain ⟨chain, entries, hrepr, hmap⟩ := h
  -- a node stands in the list of its bucket where its entry stands
  have hplace : ∀ node cell, hash.mem.cells node = some cell → ∃ i : Nat,
      (chain (hashGetBucket hash cell.value.1))[i]? = some node ∧
        (entries (hashGetBucket hash cell.value.1))[i]? = some cell.value := by
    intro node cell hcell
    obtain ⟨bucket, hnode⟩ := hrepr.owned node (hcell ▸ Option.some_ne_none cell)
    obtain ⟨i, hi⟩ := List.mem_iff_getElem?.mp hnode
    have hentry := (hrepr.linked bucket).getElem? i
    rw [hi, Option.bind_some, hcell, Option.map_some] at hentry
    rw [hrepr.hashed bucket _ (List.mem_of_getElem? hentry)]
    exact ⟨i, hi, hentry⟩
  refine ⟨fun key value => ⟨fun hkey => ?_, ?_⟩, ?_⟩
  · obtain ⟨i, hi⟩ := List.mem_iff_getElem?.mp ((hmap key value).mp hkey)
    rw [(hrepr.linked _).getElem? i, Option.bind_eq_some_iff] at hi
    obtain ⟨node, -, hcell⟩ := hi
    obtain ⟨cell, hcell, hvalue⟩ := Option.map_eq_some_iff.mp hcell
    exact ⟨node, cell, hcell, hvalue⟩
  · rintro ⟨node, cell, hcell, hvalue⟩
    obtain ⟨i, -, hentry⟩ := hplace node cell hcell
    rw [hvalue] at hentry
    exact (hmap key value).mpr (List.mem_of_getElem? hentry)
  · intro node other cell cell' hcell hcell' hkey
    obtain ⟨i, hnode, hentry⟩ := hplace node cell hcell
    obtain ⟨j, hother, hentry'⟩ := hplace other cell' hcell'
    rw [← hkey] at hother hentry'
    -- the keys of a bucket are distinct
    have hi : i < ((entries (hashGetBucket hash cell.value.1)).map Prod.fst).length := by
      rw [List.length_map]
      exact (List.getElem?_eq_some_iff.mp hentry).1
    obtain rfl : i = j := by
      refine (List.getElem?_inj hi (hrepr.keys _)).mp ?_
      rw [List.getElem?_map, List.getElem?_map, hentry, hentry', Option.map_some, Option.map_some, hkey]
    exact Option.some_inj.mp (hnode.symm.trans hother)

variable [DecidableEq κ]

/-- The map when the entry of one key has been changed. -/
theorem Repr.holds_update {hash' : Hash κ ν} {ps : List Nat} (xs : List (κ × ν)) {value' : Option ν}
    (hmap : ∀ key value, map key = some value ↔ (key, value) ∈ entries (hashGetBucket hash key))
    (hbucket : hashGetBucket hash' = hashGetBucket hash)
    (h' : Repr hash' (Function.update chain (hashGetBucket hash key) ps)
      (Function.update entries (hashGetBucket hash key) xs))
    (hkey : ∀ value, value' = some value ↔ (key, value) ∈ xs)
    (hothers : ∀ other, other ≠ key → ∀ value,
      (other, value) ∈ xs ↔ (other, value) ∈ entries (hashGetBucket hash key)) :
    Holds hash' (Function.update map key value') := by
  refine ⟨_, _, h', fun other value => ?_⟩
  rw [hbucket]
  rcases eq_or_ne other key with rfl | hne
  · rw [Function.update_self, Function.update_self]
    exact hkey value
  · rw [Function.update_of_ne hne, hmap]
    rcases eq_or_ne (hashGetBucket hash other) (hashGetBucket hash key) with heq | hb
    · rw [heq, Function.update_self]
      exact (hothers other hne value).symm
    · rw [Function.update_of_ne hb]

/-- The place of an entry in the list of its bucket. -/
structure At (hash : Hash κ ν) (chain : Nat → List Nat) (entries : Nat → List (κ × ν)) (key : κ) (value : ν)
    (front : List Nat) (node : Nat) (back : List Nat) (us vs : List (κ × ν)) : Prop where
  chain_eq : chain (hashGetBucket hash key) = front ++ node :: back
  entries_eq : entries (hashGetBucket hash key) = us ++ (key, value) :: vs
  length_eq : front.length = us.length
  found : hashGetNodeByKey hash key = some node

/-- `hash_get_node_by_key` finds the node of a key, exactly if there is one. -/
theorem Repr.find (h : Repr hash chain entries) (key : κ) :
    hashGetNodeByKey hash key = none ∧ (∀ value, (key, value) ∉ entries (hashGetBucket hash key)) ∨
      ∃ value front node back us vs, At hash chain entries key value front node back us vs := by
  have hfuel : (chain (hashGetBucket hash key)).length < hash.mem.fresh + 1 :=
    Nat.lt_succ_of_le (h.length_le _)
  rw [hashGetNodeByKey, h.front]
  rcases (h.linked (hashGetBucket hash key)).find (fun entry => entry.1 = key) hfuel with
    ⟨hnone, hall⟩ | ⟨front, node, back, us, ⟨k, value⟩, vs, hchain, hentries, hlength, hwanted, hfound⟩
  · refine Or.inl ⟨hnone, fun value hmem => ?_⟩
    exact absurd rfl (decide_eq_false_iff_not.mp (hall _ hmem))
  · obtain rfl : k = key := of_decide_eq_true hwanted
    refine Or.inr ⟨value, front, node, back, us, vs, hchain, hentries, hlength, ?_⟩
    rw [hashGetNodeByKey, h.front, hfound]

/-- What the map says of a key that has been found. -/
theorem At.map_eq {value : ν} {front back : List Nat} {node : Nat} {us vs : List (κ × ν)}
    (hat : At hash chain entries key value front node back us vs)
    (hmap : ∀ key value, map key = some value ↔ (key, value) ∈ entries (hashGetBucket hash key)) :
    map key = some value := by
  rw [hmap, hat.entries_eq]
  exact List.mem_append_right us List.mem_cons_self

/-- The node of a key that has been found, in memory. -/
theorem At.unlink (h : Repr hash chain entries) {value : ν} {front back : List Nat} {node : Nat}
    {us vs : List (κ × ν)} (hat : At hash chain entries key value front node back us vs) :
    ∃ cell, hash.mem.cells node = some cell ∧ cell.value = (key, value) ∧ cell.prev = front.getLast? ∧
      cell.next = back.head? ∧ DLinked (hash.mem.unlink node cell) none (front ++ back) (us ++ vs) := by
  have hlinked := h.linked (hashGetBucket hash key)
  have hnodup := h.nodup (hashGetBucket hash key)
  rw [hat.chain_eq] at hlinked hnodup
  rw [hat.entries_eq] at hlinked
  obtain ⟨cell, hcell, hvalue, hprev, hnext, hleft⟩ :=
    hlinked.unlink hat.length_eq hnodup fun _ _ heq => absurd heq.symm (Option.some_ne_none _)
  exact ⟨cell, hcell, hvalue, by rw [hprev, Option.or_none], hnext, hleft⟩

/-! ## The functions on the map -/

/-- `hash_lookup_entry` looks the key up in the map. -/
theorem Holds.lookup (h : Holds hash map) (key : κ) : hashLookupEntry hash key = map key := by
  obtain ⟨chain, entries, hrepr, hmap⟩ := h
  rw [hashLookupEntry]
  rcases hrepr.find key with ⟨hnone, hall⟩ | ⟨value, front, node, back, us, vs, hat⟩
  · rw [hnone]
    cases hkey : map key with
    | none => rfl
    | some value => exact absurd ((hmap key value).mp hkey) (hall value)
  · obtain ⟨cell, hcell, hvalue, -⟩ := hat.unlink hrepr
    rw [hat.found, hat.map_eq hmap, Option.bind_some, hcell, Option.map_some, hvalue]

/-- `hash_add_entry` binds a key that is not bound, and does nothing with one that is. -/
theorem Holds.add (h : Holds hash map) (key : κ) (value : ν) :
    Holds (hashAddEntry hash key value)
      (match map key with
        | some _ => map
        | none => Function.update map key (some value)) := by
  have hlookup := h.lookup key
  cases hkey : map key with
  | some old =>
      rw [hashAddEntry, hlookup, hkey]
      exact h
  | none =>
      rw [hashAddEntry_of_none (hlookup.trans hkey)]
      obtain ⟨chain, entries, hrepr, hmap⟩ := h
      have hnot : ∀ v, (key, v) ∉ entries (hashGetBucket hash key) := fun v hmem =>
        absurd (hkey.symm.trans ((hmap key v).mpr hmem)).symm (Option.some_ne_none v)
      have hpush := (hrepr.linked (hashGetBucket hash key)).push (hrepr.nodup _) (hrepr.fresh_not_mem _) (key, value)
      rw [← hrepr.front] at hpush
      refine Repr.holds_update ((key, value) :: entries (hashGetBucket hash key)) hmap rfl
        (hrepr.change rfl hpush rfl ?_ ?_ ?_ ?_ ?_ ?_ ?_ ?_) ?_ ?_
      · exact List.nodup_cons.mpr ⟨hrepr.fresh_not_mem _, hrepr.nodup _⟩
      · intro node hnode
        rcases List.mem_cons.mp hnode with rfl | hnode
        · exact Or.inr rfl
        · exact Or.inl hnode
      · rw [Arena.setPrev, Arena.fresh_modify]
        exact Nat.le_succ _
      · intro node hnode
        rw [Arena.setPrev, Arena.fresh_modify]
        rcases List.mem_cons.mp hnode with rfl | hnode
        · exact Nat.lt_succ_self _
        · exact Nat.lt_succ_of_lt (hrepr.used _ node hnode)
      · intro node hchain hne
        rw [Arena.setPrev, Arena.modify_of_ne, Arena.alloc_of_ne _ hne]
        intro heq
        exact hchain (List.mem_of_mem_head? ((hrepr.front _).symm.trans heq))
      · intro node _ hnode
        exact List.mem_cons.mpr hnode.symm
      · exact List.forall_mem_cons.mpr ⟨rfl, hrepr.hashed _⟩
      · rw [List.map_cons, List.nodup_cons]
        refine ⟨fun hmem => ?_, hrepr.keys _⟩
        obtain ⟨⟨k, v⟩, hentry, rfl⟩ := List.mem_map.mp hmem
        exact hnot v hentry
      · intro v
        rw [List.mem_cons]
        constructor
        · rintro ⟨⟩
          exact Or.inl rfl
        · rintro (heq | hmem)
          · obtain ⟨-, rfl⟩ := Prod.mk.inj heq
            rfl
          · exact absurd hmem (hnot v)
      · intro other hne v
        rw [List.mem_cons]
        exact ⟨fun hmem => hmem.resolve_left fun heq => hne (Prod.mk.inj heq).1, Or.inr⟩

/-- `hash_free_entry` takes a key out of the map. -/
theorem Holds.free (h : Holds hash map) (key : κ) :
    Holds (hashFreeEntry hash key) (Function.update map key none) := by
  obtain ⟨chain, entries, hrepr, hmap⟩ := h
  rw [hashFreeEntry]
  rcases hrepr.find key with ⟨hnone, hall⟩ | ⟨value, front, node, back, us, vs, hat⟩
  · have hkey : map key = none := by
      rw [Option.eq_none_iff_forall_ne_some]
      exact fun value heq => hall value ((hmap key value).mp heq)
    rw [hnone, ← hkey, Function.update_eq_self]
    exact ⟨chain, entries, hrepr, hmap⟩
  · obtain ⟨cell, hcell, -, hprev, hnext, hleft⟩ := hat.unlink hrepr
    rw [hat.found, Option.bind_some, hcell, Option.map_some]
    dsimp only
    obtain ⟨hkeys, hne⟩ := hrepr.others hat.entries_eq
    have hnodup := hrepr.nodup (hashGetBucket hash key)
    rw [hat.chain_eq] at hnodup
    obtain ⟨hnot, hnodup⟩ := List.nodup_cons.mp (List.nodup_middle.mp hnodup)
    have hsub : ∀ q ∈ front ++ back, q ∈ chain (hashGetBucket hash key) := by
      intro q hq
      rw [hat.chain_eq]
      exact List.mem_append.mpr ((List.mem_append.mp hq).imp_right (List.mem_cons_of_mem node))
    have hfresh : (hash.mem.unlink node cell).fresh = hash.mem.fresh := by
      rw [Arena.unlink, Arena.free, Arena.setPrev, Arena.fresh_modify, Arena.setNext, Arena.fresh_modify]
    -- the bucket is led past the node if nothing stands in front of it
    have hnodes : (match cell.prev with
        | some _ => hash.nodes
        | none => Function.update hash.nodes (hashGetBucket hash key) cell.next)
        = Function.update hash.nodes (hashGetBucket hash key) (front ++ back).head? := by
      have hfront := hrepr.front (hashGetBucket hash key)
      rw [hat.chain_eq] at hfront
      rw [hprev, hnext]
      cases front with
      | nil => rfl
      | cons a front =>
          rw [List.getLast?_cons]
          exact (Function.update_eq_self_iff.mpr hfront.symm).symm
    refine Repr.holds_update (us ++ vs) hmap rfl
      (hrepr.change_within rfl hleft hnodes hnodup hsub hfresh ?_ ?_ ?_ hkeys) ?_ ?_
    · intro q hchain
      rw [hat.chain_eq] at hchain
      refine Arena.unlink_of_ne ?_ ?_ ?_
      · exact fun heq => hchain (heq ▸ List.mem_append_right front List.mem_cons_self)
      · exact fun heq => hchain (List.mem_append_left _ (List.mem_of_mem_getLast? (hprev ▸ heq)))
      · exact fun heq => hchain (List.mem_append_right front
          (List.mem_cons_of_mem node (List.mem_of_mem_head? (hnext ▸ heq))))
    · intro q hq hmem
      have hne : q ≠ node := by
        rintro rfl
        exact hq (Function.update_self ..)
      rw [hat.chain_eq, List.mem_append, List.mem_cons] at hmem
      exact List.mem_append.mpr (hmem.imp_right fun hor => hor.resolve_left hne)
    · intro entry hentry
      refine hrepr.hashed _ entry ?_
      rw [hat.entries_eq]
      exact List.mem_append.mpr ((List.mem_append.mp hentry).imp_right (List.mem_cons_of_mem _))
    · intro v
      exact ⟨fun heq => absurd heq.symm (Option.some_ne_none v), fun hmem => absurd rfl (hne _ hmem)⟩
    · intro other hother v
      rw [hat.entries_eq, List.mem_append, List.mem_append, List.mem_cons]
      refine or_congr_right ⟨Or.inr, fun hor => hor.resolve_left fun heq => hother (Prod.mk.inj heq).1⟩

/-- `*p = value` changes the value of a key that is bound. -/
theorem Holds.store (h : Holds hash map) (key : κ) (value : ν) :
    Holds (hashStoreEntry hash key value)
      (match map key with
        | some _ => Function.update map key (some value)
        | none => map) := by
  obtain ⟨chain, entries, hrepr, hmap⟩ := h
  rw [hashStoreEntry]
  rcases hrepr.find key with ⟨hnone, hall⟩ | ⟨old, front, node, back, us, vs, hat⟩
  · have hkey : map key = none := by
      rw [Option.eq_none_iff_forall_ne_some]
      exact fun value heq => hall value ((hmap key value).mp heq)
    rw [hnone, hkey]
    exact ⟨chain, entries, hrepr, hmap⟩
  · rw [hat.found, hat.map_eq hmap]
    dsimp only
    have hlinked := hrepr.linked (hashGetBucket hash key)
    have hnodup := hrepr.nodup (hashGetBucket hash key)
    have hhashed := hrepr.hashed (hashGetBucket hash key)
    have hkeys := hrepr.keys (hashGetBucket hash key)
    obtain ⟨-, hne⟩ := hrepr.others hat.entries_eq
    rw [hat.entries_eq] at hlinked hhashed hkeys
    rw [hat.chain_eq] at hlinked hnodup
    have hset := hlinked.setValue hat.length_eq hnodup (key, value)
    rw [← hat.chain_eq] at hset
    refine Repr.holds_update (us ++ (key, value) :: vs) hmap rfl
      (hrepr.change_within rfl hset ?_ (hrepr.nodup _) (fun _ hq => hq) (Arena.fresh_modify ..) ?_
        (fun _ _ hq => hq) ?_ ?_) ?_ ?_
    · rw [← hrepr.front, Function.update_eq_self]
    · intro q hchain
      show (hash.mem.modify (some node) _).cells q = _
      refine Arena.modify_of_ne _ fun heq => hchain ?_
      rw [hat.chain_eq, ← Option.some_inj.mp heq]
      exact List.mem_append_right front List.mem_cons_self
    · intro entry hentry
      rcases List.mem_append.mp hentry with hus | hvs
      · exact hhashed entry (List.mem_append_left _ hus)
      · rcases List.mem_cons.mp hvs with rfl | hvs
        · rfl
        · exact hhashed entry (List.mem_append_right us (List.mem_cons_of_mem _ hvs))
    · rwa [List.map_append, List.map_cons] at hkeys ⊢
    · intro v
      rw [List.mem_append, List.mem_cons]
      constructor
      · rintro ⟨⟩
        exact Or.inr (Or.inl rfl)
      · rintro (hus | heq | hvs)
        · exact absurd rfl (hne _ (List.mem_append_left vs hus))
        · rw [(Prod.mk.inj heq).2]
        · exact absurd rfl (hne _ (List.mem_append_right us hvs))
    · intro other hother v
      rw [hat.entries_eq, List.mem_append, List.mem_append, List.mem_cons, List.mem_cons]
      refine or_congr_right ?_
      exact ⟨fun hor => Or.inr (hor.resolve_left fun heq => hother (Prod.mk.inj heq).1),
        fun hor => Or.inr (hor.resolve_left fun heq => hother (Prod.mk.inj heq).1)⟩

/-! ## Tables that hold what a lookup finds -/

/-- The table holds the map that its lookups show. -/
def Sound (hash : Hash κ ν) : Prop := Holds hash (hashLookupEntry hash)

theorem Holds.sound (h : Holds hash map) : Sound hash ∧ hashLookupEntry hash = map := by
  obtain rfl : hashLookupEntry hash = map := funext h.lookup
  exact ⟨h, rfl⟩

theorem sound_hashAlloc (buckets : Nat) (hashFunc : Nat → κ → Nat) (inRange : ∀ key, hashFunc buckets key < buckets) :
    Sound (hashAlloc buckets hashFunc inRange : Hash κ ν) ∧
      ∀ key, hashLookupEntry (hashAlloc buckets hashFunc inRange : Hash κ ν) key = none := by
  obtain ⟨hsound, hlookup⟩ := (holds_hashAlloc (ν := ν) buckets hashFunc inRange).sound
  exact ⟨hsound, fun key => congrFun hlookup key⟩

theorem Sound.add (h : Sound hash) (value : ν) (hkey : hashLookupEntry hash key = none) :
    Sound (hashAddEntry hash key value) ∧
      hashLookupEntry (hashAddEntry hash key value) = Function.update (hashLookupEntry hash) key (some value) := by
  have hadd := Holds.add h key value
  rw [hkey] at hadd
  exact hadd.sound

theorem Sound.free (h : Sound hash) (key : κ) :
    Sound (hashFreeEntry hash key) ∧
      hashLookupEntry (hashFreeEntry hash key) = Function.update (hashLookupEntry hash) key none :=
  (Holds.free h key).sound

theorem Sound.store (h : Sound hash) {old : ν} (value : ν) (hkey : hashLookupEntry hash key = some old) :
    Sound (hashStoreEntry hash key value) ∧
      hashLookupEntry (hashStoreEntry hash key value) = Function.update (hashLookupEntry hash) key (some value) := by
  have hstore := Holds.store h key value
  rw [hkey] at hstore
  exact hstore.sound

end Repr

/-! ## Any sequence of calls -/

/-- A call of one of the functions. -/
inductive HashCall (κ : Type u) (ν : Type v) where
  | lookup (key : κ)
  | add (key : κ) (value : ν)
  | free (key : κ)
  | store (key : κ) (value : ν)

section Calls

variable {κ : Type u} {ν : Type v} [DecidableEq κ]

/-- A call, and what a lookup returns. -/
def hashStep (hash : Hash κ ν) : HashCall κ ν → Hash κ ν × List (Option ν)
  | .lookup key => (hash, [hashLookupEntry hash key])
  | .add key value => (hashAddEntry hash key value, [])
  | .free key => (hashFreeEntry hash key, [])
  | .store key value => (hashStoreEntry hash key value, [])

/-- What a call is to do to a map: a key that is bound is not bound again, and only a key that is bound is stored to. -/
def mapStep (map : κ → Option ν) : HashCall κ ν → (κ → Option ν) × List (Option ν)
  | .lookup key => (map, [map key])
  | .add key value => (match map key with
      | some _ => map
      | none => Function.update map key (some value), [])
  | .free key => (Function.update map key none, [])
  | .store key value => (match map key with
      | some _ => Function.update map key (some value)
      | none => map, [])

/-- Every call does to the table what it is to do to the map. -/
theorem Holds.step {hash : Hash κ ν} {map : κ → Option ν} (h : Holds hash map) (call : HashCall κ ν) :
    Holds (hashStep hash call).1 (mapStep map call).1 ∧ (hashStep hash call).2 = (mapStep map call).2 := by
  cases call with
  | lookup key => exact ⟨h, congrArg (fun found => [found]) (h.lookup key)⟩
  | add key value => exact ⟨h.add key value, rfl⟩
  | free key => exact ⟨h.free key, rfl⟩
  | store key value => exact ⟨h.store key value, rfl⟩

/-- The table and the map stay together over any calls. -/
theorem Holds.runSteps {hash : Hash κ ν} {map : κ → Option ν} (h : Holds hash map) (calls : List (HashCall κ ν)) :
    Holds (Library.runSteps hashStep hash calls).1 (Library.runSteps mapStep map calls).1 ∧
      (Library.runSteps hashStep hash calls).2 = (Library.runSteps mapStep map calls).2 := by
  induction calls generalizing hash map with
  | nil => exact ⟨h, rfl⟩
  | cons call calls ih =>
      obtain ⟨hstep, hout⟩ := h.step call
      obtain ⟨hrun, hrest⟩ := ih hstep
      rw [runSteps_cons, runSteps_cons, prepend_fst, prepend_fst, prepend_snd, prepend_snd, hout, hrest]
      exact ⟨hrun, rfl⟩

/-- **Over any calls the table answers as a map does, and its nodes in memory are the entries of the map, one for
each.** -/
theorem hash_answers_as_map (buckets : Nat) (hashFunc : Nat → κ → Nat)
    (inRange : ∀ key, hashFunc buckets key < buckets) (calls : List (HashCall κ ν)) :
    let table := runSteps hashStep (hashAlloc buckets hashFunc inRange) calls
    let map := runSteps mapStep (fun _ => none) calls
    table.2 = map.2 ∧
      (∀ key value, map.1 key = some value ↔
        ∃ node cell, table.1.mem.cells node = some cell ∧ cell.value = (key, value)) ∧
      ∀ node other cell cell', table.1.mem.cells node = some cell → table.1.mem.cells other = some cell' →
        cell.value.1 = cell'.value.1 → node = other := by
  obtain ⟨hrun, hout⟩ := (holds_hashAlloc (ν := ν) buckets hashFunc inRange).runSteps calls
  exact ⟨hout, hrun.nodes_iff⟩

end Calls

/-- Two keys of one bucket, one of which is bound twice and taken out. -/
theorem hash_answers_as_map_collision :
    (runSteps hashStep (hashAlloc 2 (fun buckets number => number % buckets) fun key => Nat.mod_lt key Nat.two_pos)
      [.add 1 5, .add 3 6, .add 1 9, .lookup 1, .store 3 7, .free 1, .lookup 3, .lookup 1]).2
      = [some 5, some 7, none] :=
  (hash_answers_as_map 2 (fun buckets number => number % buckets) (fun key => Nat.mod_lt key Nat.two_pos) _).1.trans
    (by decide)

end QLog.Ftpd
