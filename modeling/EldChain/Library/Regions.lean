-- A file as a row of items, read and written a region at a time. What a
-- write leaves of the regions apart from it, and what it leaves of its own.
import Mathlib.Data.List.TakeDrop
import Mathlib.Logic.ExistsUnique

namespace regions

variable {A : Type}

/-- The items of a region, when the file reaches its end. -/
def readAt (file : List A) (offset size : Nat) : Option (List A) :=
  if offset + size ≤ file.length then some ((file.drop offset).take size) else none

/-- Writes at an offset. A gap before it is filled, and the file grows as far as needed. -/
def writeAt (fill : A) (file : List A) (offset : Nat) (data : List A) : List A :=
  if data = [] then file
  else file.take offset ++ List.replicate (offset - file.length) fill ++ data
    ++ file.drop (offset + data.length)

/-- Two regions with nothing in common. -/
def Apart (offset size offset' size' : Nat) : Prop :=
  offset + size ≤ offset' ∨ offset' + size' ≤ offset

theorem Apart.symm {offset size offset' size' : Nat} (h : Apart offset size offset' size') :
    Apart offset' size' offset size := Or.symm h

theorem readAt_of_le {file : List A} {offset size : Nat} (h : offset + size ≤ file.length) :
    readAt file offset size = some ((file.drop offset).take size) := if_pos h

theorem length_of_readAt {file data : List A} {offset size : Nat}
    (h : readAt file offset size = some data) : data.length = size := by
  unfold readAt at h
  split at h
  · cases h
    rw [List.length_take, List.length_drop]
    omega
  · cases h

section Inside

-- a write that stays inside the file
variable {fill : A} {file data : List A} {offset : Nat} (hin : offset + data.length ≤ file.length)
include hin

theorem writeAt_eq : writeAt fill file offset data =
    file.take offset ++ data ++ file.drop (offset + data.length) := by
  unfold writeAt
  by_cases hnil : data = []
  · rw [if_pos hnil, hnil]
    simp
  · rw [if_neg hnil, Nat.sub_eq_zero_of_le (by omega)]
    simp

@[simp] theorem length_writeAt : (writeAt fill file offset data).length = file.length := by
  rw [writeAt_eq hin]
  simp only [List.length_append, List.length_take, List.length_drop]
  omega

/-- A write leaves every region apart from it. -/
theorem readAt_writeAt_of_apart {offset' size' : Nat}
    (h : Apart offset data.length offset' size') :
    readAt (writeAt fill file offset data) offset' size' = readAt file offset' size' := by
  unfold readAt
  rw [length_writeAt hin]
  by_cases hle : offset' + size' ≤ file.length
  · rw [if_pos hle, if_pos hle, writeAt_eq hin]
    congr 1
    apply List.ext_getElem?
    intro k
    by_cases hk : k < size'
    · simp only [List.getElem?_take, hk, if_true, List.getElem?_drop]
      rcases h with h | h
      · rw [List.getElem?_append_right (by simp; omega), List.getElem?_drop]
        simp only [List.length_append, List.length_take]
        congr 1
        omega
      · rw [List.getElem?_append_left (by simp; omega),
          List.getElem?_append_left (by simp; omega), List.getElem?_take, if_pos (by omega)]
    · simp only [List.getElem?_take, hk, if_false]
  · rw [if_neg hle, if_neg hle]

/-- A write is read back. -/
theorem readAt_writeAt_self :
    readAt (writeAt fill file offset data) offset data.length = some data := by
  unfold readAt
  rw [length_writeAt hin, if_pos hin, writeAt_eq hin]
  congr 1
  have htake : (file.take offset).length = offset := by
    rw [List.length_take]
    omega
  rw [List.append_assoc, List.drop_append_of_le_length (by omega),
    List.drop_of_length_le (by omega), List.nil_append, List.take_append_of_le_length (by omega),
    List.take_length]

end Inside

/-! ## Tilings -/

/-- Regions, as offsets and sizes, that fill a file: no two of them share a place, none
reaches out of the file, and every place is in one. -/
structure Tiles (regions : List (Nat × Nat)) (total : Nat) : Prop where
  apart : regions.Pairwise (fun a b => Apart a.1 a.2 b.1 b.2)
  inside : ∀ a ∈ regions, a.1 + a.2 ≤ total
  covers : ∀ place < total, ∃ a ∈ regions, a.1 ≤ place ∧ place < a.1 + a.2

/-- The order of the regions does not matter. -/
theorem Tiles.perm {regions regions' : List (Nat × Nat)} {total : Nat} (h : Tiles regions total)
    (hperm : regions.Perm regions') : Tiles regions' total where
  apart := hperm.pairwise h.apart (fun hab => hab.symm)
  inside a ha := h.inside a (hperm.mem_iff.mpr ha)
  covers place hplace := by
    obtain ⟨a, ha, hin⟩ := h.covers place hplace
    exact ⟨a, hperm.mem_iff.mp ha, hin⟩

/-- One more region at the end fills a longer file. -/
theorem Tiles.snoc {regions : List (Nat × Nat)} {total : Nat} (h : Tiles regions total)
    (size : Nat) : Tiles (regions ++ [(total, size)]) (total + size) where
  apart := by
    rw [List.pairwise_append]
    refine ⟨h.apart, List.pairwise_singleton _ _, ?_⟩
    intro a ha b hb
    rw [List.mem_singleton.mp hb]
    exact Or.inl (h.inside a ha)
  inside a ha := by
    rcases List.mem_append.mp ha with ha | ha
    · have := h.inside a ha
      omega
    · obtain rfl := List.mem_singleton.mp ha
      exact Nat.le_refl _
  covers place hplace := by
    by_cases hbefore : place < total
    · obtain ⟨a, ha, hin⟩ := h.covers place hbefore
      exact ⟨a, List.mem_append_left _ ha, hin⟩
    · exact ⟨(total, size), List.mem_append_right _ List.mem_cons_self, by omega, hplace⟩

/-- Regions of one size, one after another. -/
theorem tiles_range (size n : Nat) :
    Tiles ((List.range n).map (fun i => (i * size, size))) (n * size) := by
  induction n with
  | zero =>
    refine ⟨List.Pairwise.nil, fun a ha => ?_, fun place hplace => ?_⟩
    · cases ha
    · rw [Nat.zero_mul] at hplace
      exact absurd hplace (Nat.not_lt_zero place)
  | succ n ih =>
    rw [List.range_succ, List.map_append, Nat.succ_mul]
    exact ih.snoc size

/-- In a tiling every place is in one region only. -/
theorem Tiles.unique_region {regions : List (Nat × Nat)} {total place : Nat}
    (h : Tiles regions total) (hplace : place < total) :
    ∃! k : Nat, ∃ a, regions[k]? = some a ∧ a.1 ≤ place ∧ place < a.1 + a.2 := by
  obtain ⟨a, ha, hin⟩ := h.covers place hplace
  obtain ⟨k, hk⟩ := List.mem_iff_getElem?.mp ha
  refine ⟨k, ⟨a, hk, hin⟩, ?_⟩
  rintro j ⟨b, hj, hbin⟩
  obtain ⟨hklt, hka⟩ := List.getElem?_eq_some_iff.mp hk
  obtain ⟨hjlt, hjb⟩ := List.getElem?_eq_some_iff.mp hj
  -- two regions at different positions are apart, and both hold the place
  rcases Nat.lt_trichotomy j k with hlt | heq | hgt
  · have hapart := List.pairwise_iff_getElem.mp h.apart j k hjlt hklt hlt
    rw [hka, hjb] at hapart
    unfold Apart at hapart
    omega
  · exact heq
  · have hapart := List.pairwise_iff_getElem.mp h.apart k j hklt hjlt hgt
    rw [hka, hjb] at hapart
    unfold Apart at hapart
    omega

end regions
