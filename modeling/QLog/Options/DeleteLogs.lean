import Mathlib.Data.List.Basic
import Mathlib.Data.List.GetD

/-! # Deleting the old logs

With `-D` the logs in the log directory are deleted before the capture, those with one of four extensions and, if the
option has an argument, only those that end in a dot and the argument. `str_has_suffix` subtracts the lengths of the
suffix and of the name without looking which is longer: it begins to compare in front of a name that is too short. -/

namespace QLog.Options

/-- An entry that `readdir` returns. -/
structure DirEntry where
  /-- `d_name` -/
  dName : List UInt8
  length_pos : 1 ≤ dName.length
  length_le : dName.length ≤ 255
  /-- what stands in front of the name in memory, backwards -/
  before : Nat → UInt8
  /-- `stat` succeeds, and the entry is a regular file -/
  isReg : Bool

/-- `tolower` -/
def toLower (c : UInt8) : UInt8 := if 0x41 ≤ c ∧ c ≤ 0x5a then c + 0x20 else c

/-- The byte at an offset from the name, which ends with a zero. -/
def DirEntry.byteAt (e : DirEntry) (off : Int) : UInt8 :=
  if off < 0 then e.before (-off - 1).toNat else e.dName.getD off.toNat 0

/-- `strncasecmp` of what stands at an offset from the name with a string of the length that is compared: the result is
zero, and the offsets that are looked at. -/
def strncasecmp (e : DirEntry) : Int → List UInt8 → Bool × List Int
  | _, [] => (true, [])
  | off, c :: cs =>
      if toLower (e.byteAt off) = toLower c then
        let r := strncasecmp e (off + 1) cs
        (r.1, off :: r.2)
      else (false, [off])

/-- `str_has_suffix (entptr->d_name, ..)` -/
def strHasSuffix (e : DirEntry) (str2 : List UInt8) : Bool × List Int :=
  strncasecmp e ((e.dName.length : Int) - str2.length) str2

/-- One comparison after another, until one succeeds. -/
def hasAnySuffix (e : DirEntry) : List (List UInt8) → Bool × List Int
  | [] => (false, [])
  | str2 :: more =>
      let r := strHasSuffix e str2
      if r.1 then r else ((hasAnySuffix e more).1, r.2 ++ (hasAnySuffix e more).2)

/-- `.sdl` -/
def sdl : List UInt8 := [0x2e, 0x73, 0x64, 0x6c]

/-- `.qmdl` -/
def qmdl : List UInt8 := [0x2e, 0x71, 0x6d, 0x64, 0x6c]

/-- `.qmdl2` -/
def qmdl2 : List UInt8 := [0x2e, 0x71, 0x6d, 0x64, 0x6c, 0x32]

/-- `.logel` -/
def logel : List UInt8 := [0x2e, 0x6c, 0x6f, 0x67, 0x65, 0x6c]

/-- `_suffix` -/
def dotSuffix (suffix : List UInt8) : List UInt8 := 0x2e :: suffix.take 248

/-- The entry is unlinked, and the offsets from its name that are looked at for it. -/
def deleteEntry (useCompressCmd : Bool) (suffix : List UInt8) (e : DirEntry) : Bool × List Int :=
  if e.dName.headD 0 = 0x2e then (false, [])
  else if useCompressCmd then (e.isReg, [])
  else
    let log := hasAnySuffix e [sdl, qmdl, qmdl2, logel]
    if log.1 = false then log
    else if suffix = [] then log
    else ((strHasSuffix e (dotSuffix suffix)).1, log.2 ++ (strHasSuffix e (dotSuffix suffix)).2)

/-- The path that is unlinked. -/
def filePath (useCompressCmd : Bool) (dir : List UInt8) (e : DirEntry) : List UInt8 :=
  if useCompressCmd then dir ++ 0x2f :: e.dName else dir.take 255 ++ 0x2f :: e.dName.take 255

/-- `delete_logs`: the paths that are unlinked. -/
def deleteLogs (useCompressCmd : Bool) (dir suffix : List UInt8) (entries : List DirEntry) : List (List UInt8) :=
  (entries.filter fun e => (deleteEntry useCompressCmd suffix e).1).map (filePath useCompressCmd dir)

/-- A name ends in a text, whatever the case of its letters. -/
def EndsIn (name text : List UInt8) : Prop := text.map toLower <:+ name.map toLower

instance (name text : List UInt8) : Decidable (EndsIn name text) := inferInstanceAs (Decidable (_ <:+ _))

/-- An old log that the option asks to delete. -/
def IsLog (suffix : List UInt8) (e : DirEntry) : Prop :=
  e.dName.headD 0 ≠ 0x2e ∧ (∃ ext ∈ [sdl, qmdl, qmdl2, logel], EndsIn e.dName ext) ∧
    (suffix ≠ [] → EndsIn e.dName (0x2e :: suffix))

instance (suffix : List UInt8) (e : DirEntry) : Decidable (IsLog suffix e) := inferInstanceAs (Decidable (_ ∧ _))

/-- Only bytes of the name have been looked at. -/
def Inside (e : DirEntry) (offs : List Int) : Prop := ∀ off ∈ offs, 0 ≤ off ∧ off < e.dName.length

/-- Exactly the old logs are unlinked, and no comparison leaves a name. -/
def DeletesExactly (dir suffix : List UInt8) (entries : List DirEntry) : Prop :=
  deleteLogs false dir suffix entries = (entries.filter fun e => IsLog suffix e).map (fun e => dir ++ 0x2f :: e.dName) ∧
    ∀ e ∈ entries, Inside e (deleteEntry false suffix e).2

/-- The name is as long as all that is compared with it. -/
def LongEnough (suffix : List UInt8) (e : DirEntry) : Prop :=
  e.dName.headD 0 ≠ 0x2e →
    (EndsIn e.dName sdl ∨ EndsIn e.dName qmdl ∨ 6 ≤ e.dName.length) ∧
    ((∃ ext ∈ [sdl, qmdl, qmdl2, logel], EndsIn e.dName ext) → suffix ≠ [] → suffix.length + 1 ≤ e.dName.length)

/-! ## Comparisons -/

section Compare

variable {e : DirEntry} {str2 : List UInt8}

theorem inside_nil : Inside e [] := fun _ h => absurd h List.not_mem_nil

theorem inside_append {as bs : List Int} : Inside e (as ++ bs) ↔ Inside e as ∧ Inside e bs := List.forall_mem_append

theorem EndsIn.length_le {name text : List UInt8} (h : EndsIn name text) : text.length ≤ name.length := by
  have hle := List.IsSuffix.length_le h
  rwa [List.length_map, List.length_map] at hle

/-- A comparison of the end of a name. -/
theorem strncasecmp_spec (cs : List UInt8) (k : Nat) (h : k + cs.length = e.dName.length) :
    ((strncasecmp e k cs).1 = true ↔ cs.map toLower = (e.dName.drop k).map toLower) ∧
      Inside e (strncasecmp e k cs).2 := by
  -- Induction on what is compared: the rest is compared with the rest of the name.
  induction cs generalizing k with
  | nil =>
      have hdrop : e.dName.drop k = [] := List.drop_eq_nil_of_le (Nat.le_of_eq h.symm)
      rw [hdrop]
      exact ⟨iff_of_true rfl rfl, inside_nil⟩
  | cons c cs ih =>
      rw [List.length_cons] at h
      have hk : k < e.dName.length := by omega
      obtain ⟨hrest, hinside⟩ := ih (k + 1) (by omega)
      have hbyte : e.byteAt k = e.dName[k] := by
        rw [DirEntry.byteAt, if_neg (by omega), Int.toNat_natCast, List.getD_eq_getElem _ _ hk]
      have hhere : 0 ≤ (k : Int) ∧ (k : Int) < e.dName.length := by omega
      rw [strncasecmp, hbyte, List.drop_eq_getElem_cons hk, List.map_cons, List.map_cons, List.cons.injEq]
      split
      · next hsame =>
          refine ⟨?_, List.forall_mem_cons.mpr ⟨hhere, hinside⟩⟩
          rw [and_iff_right hsame.symm, ← hrest]
          exact Iff.rfl
      · next hother =>
          refine ⟨iff_of_false Bool.false_ne_true fun h => hother h.1.symm, ?_⟩
          exact List.forall_mem_cons.mpr ⟨hhere, inside_nil⟩

/-- The first byte is always looked at. -/
theorem mem_strncasecmp (off : Int) (c : UInt8) (cs : List UInt8) : off ∈ (strncasecmp e off (c :: cs)).2 := by
  rw [strncasecmp]
  split <;> exact List.mem_cons_self

/-- **A suffix is compared inside the name** exactly if it is not longer than the name, and then rightly. -/
theorem strHasSuffix_of_le (h : str2.length ≤ e.dName.length) :
    ((strHasSuffix e str2).1 = true ↔ EndsIn e.dName str2) ∧ Inside e (strHasSuffix e str2).2 := by
  have hoff : (e.dName.length : Int) - str2.length = (e.dName.length - str2.length : Nat) := (Int.ofNat_sub h).symm
  obtain ⟨hresult, hinside⟩ := strncasecmp_spec (e := e) str2 (e.dName.length - str2.length) (by omega)
  rw [strHasSuffix, hoff]
  refine ⟨?_, hinside⟩
  rw [hresult, EndsIn, List.suffix_iff_eq_drop, List.length_map, List.length_map, List.map_drop]

theorem inside_strHasSuffix_iff (hne : str2 ≠ []) :
    Inside e (strHasSuffix e str2).2 ↔ str2.length ≤ e.dName.length := by
  refine ⟨fun h => ?_, fun h => (strHasSuffix_of_le h).2⟩
  obtain ⟨c, cs, rfl⟩ := List.exists_cons_of_ne_nil hne
  have hfirst := h _ (mem_strncasecmp _ c cs)
  omega

/-- Some suffixes, one of which the name may have: it has to be as long as those that are tried. -/
theorem inside_hasAnySuffix_cons (hne : str2 ≠ []) (more : List (List UInt8)) :
    Inside e (hasAnySuffix e (str2 :: more)).2 ↔
      str2.length ≤ e.dName.length ∧ (EndsIn e.dName str2 ∨ Inside e (hasAnySuffix e more).2) := by
  rw [hasAnySuffix]
  by_cases hle : str2.length ≤ e.dName.length
  · obtain ⟨hresult, hinside⟩ := strHasSuffix_of_le hle
    split
    · next hends => exact iff_of_true hinside ⟨hle, Or.inl (hresult.mp hends)⟩
    · next hends =>
        rw [inside_append, and_iff_right hinside, and_iff_right hle, or_iff_right fun h => hends (hresult.mpr h)]
  · have hout := mt (inside_strHasSuffix_iff hne).mp hle
    refine iff_of_false ?_ fun h => hle h.1
    split
    · exact hout
    · exact fun h => hout (inside_append.mp h).1

theorem hasAnySuffix_of_inside {exts : List (List UInt8)} (hne : ∀ ext ∈ exts, ext ≠ [])
    (h : Inside e (hasAnySuffix e exts).2) : (hasAnySuffix e exts).1 = true ↔ ∃ ext ∈ exts, EndsIn e.dName ext := by
  induction exts with
  | nil => exact iff_of_false Bool.false_ne_true fun ⟨_, hmem, _⟩ => absurd hmem List.not_mem_nil
  | cons str2 more ih =>
      obtain ⟨hne, hmore⟩ := List.forall_mem_cons.mp hne
      obtain ⟨hle, hrest⟩ := (inside_hasAnySuffix_cons hne more).mp h
      have hresult := (strHasSuffix_of_le hle).1
      have hsplit : (∃ ext ∈ str2 :: more, EndsIn e.dName ext) ↔
          EndsIn e.dName str2 ∨ ∃ ext ∈ more, EndsIn e.dName ext := by
        simp only [List.mem_cons, exists_eq_or_imp]
      rw [hasAnySuffix, hsplit]
      split
      · next hends => exact iff_of_true hends (Or.inl (hresult.mp hends))
      · next hends =>
          have hnot : ¬ EndsIn e.dName str2 := fun h => hends (hresult.mpr h)
          rw [or_iff_right hnot]
          exact ih hmore (hrest.resolve_left hnot)

end Compare

/-! ## One entry -/

section Entry

variable {suffix : List UInt8} {e : DirEntry}

/-- The four extensions: one that is shorter has to be found, or the name is as long as the longest. -/
theorem inside_extensions_iff : Inside e (hasAnySuffix e [sdl, qmdl, qmdl2, logel]).2 ↔
    EndsIn e.dName sdl ∨ EndsIn e.dName qmdl ∨ 6 ≤ e.dName.length := by
  have hsdl : EndsIn e.dName sdl → 4 ≤ e.dName.length := EndsIn.length_le
  have hqmdl : EndsIn e.dName qmdl → 5 ≤ e.dName.length := EndsIn.length_le
  have hlast : Inside e (hasAnySuffix e [logel]).2 ↔ 6 ≤ e.dName.length := by
    rw [inside_hasAnySuffix_cons (by decide)]
    exact and_iff_left (Or.inr inside_nil)
  rw [inside_hasAnySuffix_cons (by decide), inside_hasAnySuffix_cons (by decide), inside_hasAnySuffix_cons (by decide),
    hlast]
  simp only [sdl, qmdl, qmdl2, List.length_cons, List.length_nil] at hsdl hqmdl ⊢
  constructor
  · rintro ⟨-, hends | ⟨-, hends | ⟨hlong, -⟩⟩⟩
    · exact Or.inl hends
    · exact Or.inr (Or.inl hends)
    · exact Or.inr (Or.inr hlong)
  · rintro (hends | hends | hlong)
    · exact ⟨hsdl hends, Or.inl hends⟩
    · exact ⟨Nat.le_of_succ_le (hqmdl hends), Or.inr ⟨hqmdl hends, Or.inl hends⟩⟩
    · exact ⟨by omega, Or.inr ⟨by omega, Or.inr ⟨hlong, Or.inr hlong⟩⟩⟩

theorem dotSuffix_eq (h : suffix.length ≤ 248) : dotSuffix suffix = 0x2e :: suffix := by
  rw [dotSuffix, List.take_of_length_le h]

/-- **One entry**: the name is as long as what is compared with it exactly if no comparison leaves it. -/
theorem inside_deleteEntry_iff (h : suffix.length ≤ 248) :
    Inside e (deleteEntry false suffix e).2 ↔ LongEnough suffix e := by
  rw [deleteEntry, LongEnough]
  by_cases hdot : e.dName.headD 0 = 0x2e
  · rw [if_pos hdot]
    exact iff_of_true inside_nil fun hne => absurd hdot hne
  · rw [if_neg hdot, if_neg Bool.false_ne_true, forall_prop_of_true hdot, ← inside_extensions_iff]
    by_cases hinside : Inside e (hasAnySuffix e [sdl, qmdl, qmdl2, logel]).2
    · rw [and_iff_right hinside, ← hasAnySuffix_of_inside (by decide) hinside]
      dsimp only
      split
      · next hnone => exact iff_of_true hinside fun hsome => absurd (hnone.symm.trans hsome) Bool.false_ne_true
      · next hsome =>
          rw [forall_prop_of_true (Bool.not_eq_false _ ▸ hsome)]
          split
          · next hempty => exact iff_of_true hinside fun hne => absurd hempty hne
          · next hne =>
              rw [inside_append, and_iff_right hinside, dotSuffix_eq h, inside_strHasSuffix_iff (List.cons_ne_nil _ _),
                forall_prop_of_true hne, List.length_cons]
    · refine iff_of_false ?_ fun hlong => hinside hlong.1
      dsimp only
      split
      · exact hinside
      · split
        · exact hinside
        · exact fun hall => hinside (inside_append.mp hall).1

/-- Where no comparison leaves the name, exactly a log is unlinked. -/
theorem deleteEntry_of_inside (h : suffix.length ≤ 248) (hinside : Inside e (deleteEntry false suffix e).2) :
    (deleteEntry false suffix e).1 = true ↔ IsLog suffix e := by
  have hlong := (inside_deleteEntry_iff h).mp hinside
  rw [deleteEntry, IsLog]
  by_cases hdot : e.dName.headD 0 = 0x2e
  · rw [if_pos hdot]
    exact iff_of_false Bool.false_ne_true fun hlog => hlog.1 hdot
  · obtain ⟨hext, hsuffix⟩ := hlong hdot
    have hlog := hasAnySuffix_of_inside (by decide) (inside_extensions_iff.mpr hext)
    rw [if_neg hdot, if_neg Bool.false_ne_true, and_iff_right hdot, ← hlog]
    dsimp only
    split
    · next hnone => exact iff_of_false (by simp [hnone]) fun hsome => by simp [hnone] at hsome
    · next hsome =>
        have htrue := Bool.not_eq_false _ ▸ hsome
        rw [and_iff_right htrue]
        split
        · next hempty => exact iff_of_true htrue fun hne => absurd hempty hne
        · next hne =>
            rw [forall_prop_of_true hne, dotSuffix_eq h]
            have hle : (0x2e :: suffix).length ≤ e.dName.length := hsuffix (hlog.mp htrue) hne
            exact (strHasSuffix_of_le hle).1

end Entry

/-! ## A directory -/

/-- **Deleting the old logs.** For every listing of a directory and every suffix, exactly the logs are unlinked and no
comparison leaves a name, if and only if every name that does not begin with a dot is as long as what is compared with
it. -/
theorem deletesExactly_iff (dir : List UInt8) (hdir : dir.length ≤ 255) (suffix : List UInt8)
    (hsuffix : suffix.length ≤ 248) (entries : List DirEntry) :
    DeletesExactly dir suffix entries ↔ ∀ e ∈ entries, LongEnough suffix e := by
  have hinside : (∀ e ∈ entries, Inside e (deleteEntry false suffix e).2) ↔ ∀ e ∈ entries, LongEnough suffix e :=
    forall₂_congr fun e _ => inside_deleteEntry_iff hsuffix
  rw [DeletesExactly, ← hinside, and_iff_right_iff_imp]
  intro hall
  have hfilter : (entries.filter fun e => (deleteEntry false suffix e).1) = entries.filter fun e => IsLog suffix e := by
    refine List.filter_congr fun e he => Bool.eq_iff_iff.mpr ?_
    rw [deleteEntry_of_inside hsuffix (hall e he), decide_eq_true_eq]
  rw [deleteLogs, hfilter]
  refine List.map_congr_left fun e _ => ?_
  rw [filePath, if_neg Bool.false_ne_true, List.take_of_length_le hdir, List.take_of_length_le e.length_le]

/-- A file `a`, behind zeros. -/
def shortEntry : DirEntry := ⟨[0x61], Nat.le_refl _, by decide, fun _ => 0, true⟩

/-- For the file `a` the comparison with `.sdl` begins three bytes in front of the name. -/
theorem deletesExactly_short : ¬ DeletesExactly [0x2e] [] [shortEntry] := by
  intro h
  have hinside := h.2 shortEntry List.mem_cons_self
  exact absurd ((inside_deleteEntry_iff (by decide)).mp hinside (by decide)).1 (by decide)

/-- A directory with `a.qmdl` and `notes.txt`. -/
theorem deletesExactly_iff_twoFiles :
    DeletesExactly [0x2e] [] [⟨[0x61, 0x2e, 0x71, 0x6d, 0x64, 0x6c], by decide, by decide, fun _ => 0, true⟩,
      ⟨[0x6e, 0x6f, 0x74, 0x65, 0x73, 0x2e, 0x74, 0x78, 0x74], by decide, by decide, fun _ => 0, true⟩] := by
  refine (deletesExactly_iff [0x2e] (by decide) [] (by decide) _).mpr ?_
  intro e he
  rcases List.mem_pair.mp he with rfl | rfl
  · exact fun _ => ⟨Or.inr (Or.inr (by decide)), fun _ hne => absurd rfl hne⟩
  · exact fun _ => ⟨Or.inr (Or.inr (by decide)), fun _ hne => absurd rfl hne⟩

end QLog.Options
