import Mathlib.Data.List.Infix
import Mathlib.Data.List.Induction

/-! # The markers of a crash

A chip that has crashed sends a marker of four bytes. `enigen_catch_dump` looks for it in every read of the log, one
read at a time, and only where more than four bytes of the read are left: it misses a marker that is cut by two reads,
and one that ends with its read. -/

namespace QLog.Eigen

/-- `g_is_eigen_chip`, for a chip of this kind. -/
inductive EigenChip
  /-- EC600E, EC800E and EC800Z: the EC618 and EC718 platforms. -/
  | ec618
  /-- EG800Q. -/
  | eg800q
deriving DecidableEq

/-- What a chip sends when it has crashed. -/
def EigenChip.markers : EigenChip → List (List UInt8)
  | .ec618 => [[0x22, 0x0a, 0x45, 0x80], [0x22, 0x04, 0x02, 0x00]]
  | .eg800q => [[0x22, 0x04, 0x02, 0x00]]

/-- The comparison of the bytes from `k` on with a marker. -/
def markerAt (rest marker : List UInt8) : Bool := 4 < rest.length && marker.isPrefixOf rest

/-- The loop over the bytes of a read is left before its end. -/
def findMarker (chip : EigenChip) : List UInt8 → Bool
  | [] => false
  | b :: bs => chip.markers.any (markerAt (b :: bs)) || findMarker chip bs

/-- What `enigen_catch_dump` returns, where the dump that follows a marker ends well or not. -/
def catchDumpRet (chip : EigenChip) (pbuf : List UInt8) (dumped : Bool) : Int :=
  if findMarker chip pbuf then (if dumped then 1 else -1) else 0

/-- There is a marker in some bytes. -/
def HasMarker (chip : EigenChip) (bytes : List UInt8) : Prop := ∃ marker ∈ chip.markers, marker <:+: bytes

/-- There is a marker with a byte behind it. -/
def HasInnerMarker (chip : EigenChip) (bytes : List UInt8) : Prop :=
  ∃ marker ∈ chip.markers, ∃ front b back, bytes = front ++ marker ++ b :: back

section Marker

variable {chip : EigenChip}

theorem length_marker {marker : List UInt8} (h : marker ∈ chip.markers) : marker.length = 4 := by
  cases chip with
  | ec618 =>
      rcases List.mem_cons.mp h with rfl | h
      · rfl
      · rw [List.mem_singleton.mp h]
        rfl
  | eg800q =>
      rw [List.mem_singleton.mp h]
      rfl

/-- A comparison succeeds where a marker stands that is not the end of the read. -/
theorem markerAt_iff {marker : List UInt8} (h : marker ∈ chip.markers) (rest : List UInt8) :
    markerAt rest marker = true ↔ ∃ b back, rest = marker ++ b :: back := by
  rw [markerAt, Bool.and_eq_true, decide_eq_true_eq, List.isPrefixOf_iff_prefix]
  constructor
  · rintro ⟨hlong, back, rfl⟩
    rw [List.length_append, length_marker h] at hlong
    obtain ⟨b, back, rfl⟩ := List.exists_cons_of_length_pos (l := back) (by omega)
    exact ⟨b, back, rfl⟩
  · rintro ⟨b, back, rfl⟩
    refine ⟨?_, List.prefix_append _ _⟩
    rw [List.length_append, length_marker h, List.length_cons]
    omega

/-- What a call finds. -/
theorem findMarker_iff (pbuf : List UInt8) : findMarker chip pbuf = true ↔ HasInnerMarker chip pbuf := by
  induction pbuf with
  | nil =>
      refine iff_of_false Bool.false_ne_true ?_
      rintro ⟨marker, -, front, b, back, hnil⟩
      simp at hnil
  | cons b bs ih =>
      rw [findMarker, Bool.or_eq_true, List.any_eq_true, ih]
      constructor
      · rintro (⟨marker, hmarker, hat⟩ | ⟨marker, hmarker, front, b', back, rfl⟩)
        · obtain ⟨b', back, heq⟩ := (markerAt_iff hmarker _).mp hat
          exact ⟨marker, hmarker, [], b', back, heq⟩
        · exact ⟨marker, hmarker, b :: front, b', back, rfl⟩
      · rintro ⟨marker, hmarker, front, b', back, heq⟩
        cases front with
        | nil => exact Or.inl ⟨marker, hmarker, (markerAt_iff hmarker _).mpr ⟨b', back, heq⟩⟩
        | cons b'' front =>
            obtain ⟨rfl, rfl⟩ := List.cons.inj heq
            exact Or.inr ⟨marker, hmarker, front, b', back, rfl⟩

theorem catchDumpRet_ne_zero (pbuf : List UInt8) (dumped : Bool) :
    catchDumpRet chip pbuf dumped ≠ 0 ↔ HasInnerMarker chip pbuf := by
  rw [← findMarker_iff, catchDumpRet]
  split
  · next h => exact iff_of_true (by cases dumped <;> decide) h
  · next h => exact iff_of_false (fun hne => hne rfl) h

theorem HasInnerMarker.hasMarker {bytes : List UInt8} (h : HasInnerMarker chip bytes) : HasMarker chip bytes := by
  obtain ⟨marker, hmarker, front, b, back, rfl⟩ := h
  exact ⟨marker, hmarker, front, b :: back, rfl⟩

theorem HasMarker.mono {bytes bytes' : List UInt8} (h : HasMarker chip bytes) (hsub : bytes <:+: bytes') :
    HasMarker chip bytes' := by
  obtain ⟨marker, hmarker, hin⟩ := h
  exact ⟨marker, hmarker, hin.trans hsub⟩

end Marker

/-- **No marker is missed**: where the reads up to some point hold one, a call for one of them has not returned zero. -/
def MarkersSeen (chip : EigenChip) (dumped : Bool) (reads : List (List UInt8)) : Prop :=
  ∀ front, front <+: reads → HasMarker chip front.flatten → ∃ pbuf ∈ front, catchDumpRet chip pbuf dumped ≠ 0

/-- **When no marker is missed**: exactly if the read that makes the first marker of the stream complete holds a marker
with a byte behind it. -/
theorem markersSeen_iff (chip : EigenChip) (dumped : Bool) (reads : List (List UInt8)) :
    MarkersSeen chip dumped reads ↔
      ∀ front pbuf, front ++ [pbuf] <+: reads → ¬ HasMarker chip front.flatten →
        HasMarker chip (front ++ [pbuf]).flatten → HasInnerMarker chip pbuf := by
  simp only [MarkersSeen, catchDumpRet_ne_zero]
  constructor
  · intro hseen front pbuf hpre hnone hmarker
    obtain ⟨pbuf', hmem, hinner⟩ := hseen (front ++ [pbuf]) hpre hmarker
    rcases List.mem_append.mp hmem with hfront | hlast
    · -- an earlier read with a marker would have made one complete
      exact absurd (hinner.hasMarker.mono (List.infix_of_mem_flatten hfront)) hnone
    · rwa [← List.mem_singleton.mp hlast]
  · intro hfirst front hpre hmarker
    induction front using List.reverseRecOn with
    | nil =>
        obtain ⟨marker, hmem, hnil⟩ := hmarker
        have hlength := length_marker hmem
        rw [List.flatten_nil, List.infix_nil] at hnil
        rw [hnil] at hlength
        cases hlength
    | append_singleton front pbuf ih =>
        by_cases hearlier : HasMarker chip front.flatten
        · obtain ⟨pbuf', hmem, hinner⟩ := ih ((List.prefix_append front [pbuf]).trans hpre) hearlier
          exact ⟨pbuf', List.mem_append_left _ hmem, hinner⟩
        · exact ⟨pbuf, List.mem_append_right _ (List.mem_singleton_self pbuf), hfirst front pbuf hpre hearlier hmarker⟩

/-- A read that is a marker and nothing else is passed over. -/
theorem not_markersSeen :
    ¬ ∀ (chip : EigenChip) (dumped : Bool) (reads : List (List UInt8)), MarkersSeen chip dumped reads := by
  intro h
  obtain ⟨pbuf, hmem, hseen⟩ := h .eg800q true [[0x22, 0x04, 0x02, 0x00]] [[0x22, 0x04, 0x02, 0x00]]
    (List.prefix_refl _) ⟨_, List.mem_singleton_self _, List.infix_refl _⟩
  rw [List.mem_singleton.mp hmem] at hseen
  exact hseen (by decide)

end QLog.Eigen
