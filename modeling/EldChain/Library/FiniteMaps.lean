-- The laws of finite maps that a ledger needs: loops that erase keys or
-- that insert the entries of one map into another, and the sum of a weight
-- over all the entries of a map.
import Mathlib.Algebra.BigOperators.Group.Finset.Basic
import Mathlib.Tactic.Ring
import Std.Data.ExtTreeMap

open Std

namespace finite_map

variable {K K' V W : Type} {cmp : K → K → Ordering} [TransCmp cmp] [LawfulEqCmp cmp]
variable {cmp' : K' → K' → Ordering} [TransCmp cmp'] [LawfulEqCmp cmp']

/-! ## Reading one entry -/

theorem get_insert [DecidableEq K] (m : ExtTreeMap K V cmp) (k j : K) (v : V) :
    (m.insert k v)[j]? = if k = j then some v else m[j]? := by
  rw [ExtTreeMap.getElem?_insert]
  simp only [LawfulEqCmp.compare_eq_iff_eq]

theorem get_insert_of_ne (m : ExtTreeMap K V cmp) {k j : K} (v : V) (h : k ≠ j) :
    (m.insert k v)[j]? = m[j]? := by
  rw [ExtTreeMap.getElem?_insert, if_neg]
  rw [LawfulEqCmp.compare_eq_iff_eq]
  exact h

theorem get_erase [DecidableEq K] (m : ExtTreeMap K V cmp) (k j : K) :
    (m.erase k)[j]? = if k = j then none else m[j]? := by
  rw [ExtTreeMap.getElem?_erase]
  simp only [LawfulEqCmp.compare_eq_iff_eq]

/-- A loop that erases takes its keys away and no others. -/
theorem get_eraseEach [DecidableEq K] (l : List K) (m : ExtTreeMap K V cmp) (j : K) :
    (l.foldl (fun m k => m.erase k) m)[j]? = if j ∈ l then none else m[j]? := by
  induction l generalizing m with
  | nil => simp
  | cons k l ih =>
    rw [List.foldl_cons, ih, get_erase]
    by_cases hl : j ∈ l
    · simp [hl]
    · by_cases hk : k = j
      · simp [hk]
      · simp [hl, hk, Ne.symm hk]

/-! ## A loop of inserts -/

/-- Inserts what `entry` makes of each entry of the list, in order. An entry it makes
nothing of is skipped. -/
def insertEach (entry : K → V → Option (K' × W)) (l : List (K × V))
    (base : ExtTreeMap K' W cmp') : ExtTreeMap K' W cmp' :=
  l.foldl (fun m p => match entry p.1 p.2 with
    | some (k, w) => m.insert k w
    | none => m) base

omit [LawfulEqCmp cmp'] in
theorem insertEach_cons (entry : K → V → Option (K' × W)) (p : K × V) (l : List (K × V))
    (base : ExtTreeMap K' W cmp') :
    insertEach entry (p :: l) base = insertEach entry l
      (match entry p.1 p.2 with | some (k, w) => base.insert k w | none => base) := rfl

/-- A key that no entry of the list writes keeps its value. -/
theorem get_insertEach_of_untouched (entry : K → V → Option (K' × W)) (l : List (K × V))
    (base : ExtTreeMap K' W cmp') (j : K') (h : ∀ p ∈ l, ∀ w, entry p.1 p.2 ≠ some (j, w)) :
    (insertEach entry l base)[j]? = base[j]? := by
  induction l generalizing base with
  | nil => rfl
  | cons p l ih =>
    rw [insertEach_cons, ih _ (fun q hq => h q (List.mem_cons_of_mem _ hq))]
    rcases he : entry p.1 p.2 with _ | ⟨k, w⟩
    · rfl
    · have hk : k ≠ j := by
        intro hkj
        subst hkj
        exact h p List.mem_cons_self w he
      exact get_insert_of_ne base w hk

/-- A key that the list writes with one value only ends with that value. -/
theorem get_insertEach_of_written (entry : K → V → Option (K' × W)) (l : List (K × V))
    (base : ExtTreeMap K' W cmp') (j : K') (w : W)
    (hex : ∃ p ∈ l, entry p.1 p.2 = some (j, w))
    (huniq : ∀ p ∈ l, ∀ w', entry p.1 p.2 = some (j, w') → w' = w) :
    (insertEach entry l base)[j]? = some w := by
  induction l generalizing base with
  | nil => obtain ⟨p, hp, _⟩ := hex; simp at hp
  | cons p l ih =>
    rw [insertEach_cons]
    by_cases hl : ∃ q ∈ l, entry q.1 q.2 = some (j, w)
    · exact ih _ hl (fun q hq => huniq q (List.mem_cons_of_mem _ hq))
    · -- no later entry writes the key, so `p` wrote it last
      rw [get_insertEach_of_untouched entry l _ j]
      · obtain ⟨q, hq, he⟩ := hex
        rcases List.mem_cons.mp hq with rfl | hq
        · rw [he]
          exact ExtTreeMap.getElem?_insert_self
        · exact absurd ⟨q, hq, he⟩ hl
      · intro q hq w' he
        have hw := huniq q (List.mem_cons_of_mem _ hq) w' he
        subst hw
        exact hl ⟨q, hq, he⟩

omit [TransCmp cmp'] [LawfulEqCmp cmp'] in
theorem mem_toList (m : ExtTreeMap K V cmp) (p : K × V) : p ∈ m.toList ↔ m[p.1]? = some p.2 :=
  ExtTreeMap.mem_toList_iff_getElem?_eq_some

/-- The last entry is the one at the greatest key. -/
theorem getLast?_toList (m : ExtTreeMap K V cmp) (p : K × V) :
    m.toList.getLast? = some p ↔
      m[p.1]? = some p.2 ∧ ∀ k : K, m[k]?.isSome = true → (cmp k p.1).isLE = true := by
  have hmax : m.toList.getLast?.map Prod.fst = m.maxKey? := by
    rw [← List.getLast?_map, ExtTreeMap.map_fst_toList_eq_keys, ExtTreeMap.maxKey?_eq_getLast?_keys]
  have hgreatest : m.maxKey? = some p.1 ↔
      m[p.1]?.isSome = true ∧ ∀ k : K, m[k]?.isSome = true → (cmp k p.1).isLE = true := by
    simp only [ExtTreeMap.maxKey?_eq_some_iff_mem_and_forall, ExtTreeMap.mem_iff_isSome_getElem?]
  constructor
  · intro hlast
    have hp := (mem_toList m p).mp (List.mem_of_getLast? hlast)
    rw [hlast, Option.map_some, eq_comm, hgreatest] at hmax
    exact ⟨hp, hmax.2⟩
  · rintro ⟨hp, hle⟩
    rw [hgreatest.mpr ⟨by rw [hp]; rfl, hle⟩] at hmax
    obtain ⟨q, hq, hkey⟩ := Option.map_eq_some_iff.mp hmax
    have hread := (mem_toList m q).mp (List.mem_of_getLast? hq)
    rw [hkey, hp] at hread
    rw [hq]
    exact congrArg some (Prod.ext hkey (Option.some.inj hread).symm)

/-- Inserting the mapped entries of a map keeps the map's keys: each key reads the
mapped entry where there is one, and the old value everywhere else. -/
theorem get_insertEach_same_key (f : K → V → Option W) (m : ExtTreeMap K V cmp)
    (base : ExtTreeMap K W cmp) (j : K) :
    (insertEach (fun k v => (f k v).map (fun w => (k, w))) m.toList base)[j]? =
      ((m[j]?.bind (f j)).or base[j]?) := by
  rcases hm : m[j]?.bind (f j) with _ | w
  · rw [Option.none_or]
    apply get_insertEach_of_untouched
    intro p hp w he
    rw [mem_toList] at hp
    obtain ⟨a, ha, hk⟩ := Option.map_eq_some_iff.mp he
    cases hk
    rw [hp, Option.bind_some, ha] at hm
    cases hm
  · rw [Option.some_or]
    obtain ⟨v, hv, hf⟩ := Option.bind_eq_some_iff.mp hm
    apply get_insertEach_of_written
    · exact ⟨(j, v), (mem_toList m _).mpr hv, by simp [hf]⟩
    · intro p hp w' he
      rw [mem_toList] at hp
      obtain ⟨a, ha, hk⟩ := Option.map_eq_some_iff.mp he
      cases hk
      rw [hp] at hv
      cases hv
      rw [ha] at hf
      exact Option.some.inj hf

/-- Inserting the entries of a map under other keys: a key reads the entry it stands for,
and the old value where there is none. -/
theorem get_insertEach_rekeyed (key : K → K') (inv : K' → Option K)
    (hinv : ∀ k j, inv j = some k ↔ key k = j) (f : K → V → W) (m : ExtTreeMap K V cmp)
    (base : ExtTreeMap K' W cmp') (j : K') :
    (insertEach (fun k v => some (key k, f k v)) m.toList base)[j]? =
      ((inv j).bind (fun k => m[k]?.map (f k))).or base[j]? := by
  rcases hj : (inv j).bind (fun k => m[k]?.map (f k)) with _ | w
  · rw [Option.none_or]
    apply get_insertEach_of_untouched
    intro p hp w he
    rw [mem_toList] at hp
    simp only [Option.some.injEq, Prod.mk.injEq] at he
    rw [(hinv p.1 j).mpr he.1, Option.bind_some, hp] at hj
    cases hj
  · rw [Option.some_or]
    obtain ⟨k, hk, hv⟩ := Option.bind_eq_some_iff.mp hj
    obtain ⟨v, hm, hw⟩ := Option.map_eq_some_iff.mp hv
    apply get_insertEach_of_written
    · exact ⟨(k, v), (mem_toList m _).mpr hm, by rw [(hinv k j).mp hk, hw]⟩
    · intro p hp w' he
      rw [mem_toList] at hp
      simp only [Option.some.injEq, Prod.mk.injEq] at he
      have hpk := (hinv p.1 j).mpr he.1
      rw [hk] at hpk
      cases hpk
      rw [hm] at hp
      cases hp
      rw [← he.2, hw]

/-! ## A loop of writes -/

section writes

variable {S A : Type} {read : S → K → Option V} {write : S → A → S} {keys : A → List K}
variable {value : A → V}

/-- A write sets the keys of its argument to one value and leaves the others. -/
def Writes (read : S → K → Option V) (write : S → A → S) (keys : A → List K) (value : A → V) :
    Prop :=
  ∀ s a j, (j ∈ keys a → read (write s a) j = some (value a)) ∧
    (j ∉ keys a → read (write s a) j = read s j)

/-- What a key reads after a loop was written by the loop, or was there before it. -/
theorem Writes.of_read (h : Writes read write keys value) {l : List A} {s : S} {j : K} {v : V}
    (hread : read (l.foldl write s) j = some v) :
    (∃ a ∈ l, j ∈ keys a ∧ value a = v) ∨ read s j = some v := by
  induction l generalizing s with
  | nil => exact Or.inr hread
  | cons a l ih =>
    rcases ih hread with ⟨b, hb, hkey⟩ | hold
    · exact Or.inl ⟨b, List.mem_cons_of_mem _ hb, hkey⟩
    · by_cases hj : j ∈ keys a
      · rw [(h s a j).1 hj] at hold
        exact Or.inl ⟨a, List.mem_cons_self, hj, Option.some.inj hold⟩
      · rw [(h s a j).2 hj] at hold
        exact Or.inr hold

/-- What holds of every value that the loop has for a key holds of what the key reads. -/
theorem Writes.read_holds (h : Writes read write keys value) {P : Option V → Prop} {l : List A}
    {s : S} {j : K} (hagree : ∀ a ∈ l, j ∈ keys a → P (some (value a)))
    (hsome : (∃ a ∈ l, j ∈ keys a) ∨ P (read s j)) : P (read (l.foldl write s) j) := by
  induction l generalizing s with
  | nil =>
    rcases hsome with ⟨a, ha, _⟩ | hold
    · cases ha
    · exact hold
  | cons a l ih =>
    apply ih (fun b hb => hagree b (List.mem_cons_of_mem _ hb))
    by_cases hj : j ∈ keys a
    · right
      rw [(h s a j).1 hj]
      exact hagree a List.mem_cons_self hj
    · rw [(h s a j).2 hj]
      rcases hsome with ⟨b, hb, hkey⟩ | hold
      · rcases List.mem_cons.mp hb with rfl | hb
        · exact absurd hkey hj
        · exact Or.inl ⟨b, hb, hkey⟩
      · exact Or.inr hold

/-- A key reads the one value that the loop has for it. -/
theorem Writes.read_of_agree (h : Writes read write keys value) {l : List A} {s : S} {j : K}
    {v : V} (hagree : ∀ a ∈ l, j ∈ keys a → value a = v)
    (hsome : (∃ a ∈ l, j ∈ keys a) ∨ read s j = some v) :
    read (l.foldl write s) j = some v :=
  h.read_holds (P := fun r => r = some v) (fun a ha hj => congrArg some (hagree a ha hj)) hsome

/-- A key that the loop writes reads something, and so does one that had a value before. -/
theorem Writes.isSome (h : Writes read write keys value) {l : List A} {s : S} {j : K}
    (hsome : (∃ a ∈ l, j ∈ keys a) ∨ (read s j).isSome = true) :
    (read (l.foldl write s) j).isSome = true :=
  h.read_holds (P := fun r => r.isSome = true) (fun _ _ _ => rfl) hsome

end writes

/-! ## The sum over a map -/

/-- The sum of the weights of all entries. -/
def total (weight : K → V → Nat) (m : ExtTreeMap K V cmp) : Nat :=
  (m.toList.map (fun p => weight p.1 p.2)).sum

/-- The weight of what a key reads: 0 for a key with no entry. -/
def weightAt (weight : K → V → Nat) (m : ExtTreeMap K V cmp) (k : K) : Nat :=
  (m[k]?.map (weight k)).getD 0

/-- The total, as a sum over any set that covers the keys. -/
theorem total_eq_sum [DecidableEq K] (weight : K → V → Nat) (m : ExtTreeMap K V cmp)
    (s : Finset K) (hs : ∀ k ∈ m, k ∈ s) : total weight m = ∑ k ∈ s, weightAt weight m k := by
  have hentries : m.toList.map (fun p => weight p.1 p.2) =
      (m.toList.map Prod.fst).map (weightAt weight m) := by
    rw [List.map_map]
    apply List.map_congr_left
    intro p hp
    rw [mem_toList] at hp
    simp [weightAt, hp]
  have hnodup : (m.toList.map Prod.fst).Nodup := by
    rw [ExtTreeMap.map_fst_toList_eq_keys]
    exact ExtTreeMap.nodup_keys
  unfold total
  rw [hentries, ← List.sum_toFinset _ hnodup, ExtTreeMap.map_fst_toList_eq_keys]
  apply Finset.sum_subset
  · intro k hk
    exact hs k (ExtTreeMap.mem_keys.mp (List.mem_toFinset.mp hk))
  · intro k _ hk
    have hnone : m[k]? = none := by
      rw [ExtTreeMap.getElem?_eq_none]
      intro hmem
      exact hk (List.mem_toFinset.mpr (ExtTreeMap.mem_keys.mpr hmem))
    simp [weightAt, hnone]

/-- An insert replaces one weight in the sum. -/
theorem total_insert [DecidableEq K] (weight : K → V → Nat) (m : ExtTreeMap K V cmp) (k : K)
    (v : V) : total weight (m.insert k v) + weightAt weight m k = total weight m + weight k v := by
  have hk : k ∈ insert k m.keys.toFinset := Finset.mem_insert_self _ _
  rw [total_eq_sum weight (m.insert k v) (insert k m.keys.toFinset),
    total_eq_sum weight m (insert k m.keys.toFinset), ← Finset.add_sum_erase _ _ hk,
    ← Finset.add_sum_erase _ (fun j => weightAt weight m j) hk]
  · have hself : weightAt weight (m.insert k v) k = weight k v := by
      simp [weightAt]
    have hrest : ∀ j ∈ (insert k m.keys.toFinset).erase k,
        weightAt weight (m.insert k v) j = weightAt weight m j := by
      intro j hj
      unfold weightAt
      rw [get_insert_of_ne m v (Finset.ne_of_mem_erase hj).symm]
    have hsum := Finset.sum_congr rfl hrest
    rw [hself, hsum]
    ring
  · intro j hj
    exact Finset.mem_insert_of_mem (List.mem_toFinset.mpr (ExtTreeMap.mem_keys.mpr hj))
  · intro j hj
    rcases ExtTreeMap.mem_insert.mp hj with hj | hj
    · rw [LawfulEqCmp.compare_eq_iff_eq.mp hj]
      exact Finset.mem_insert_self _ _
    · exact Finset.mem_insert_of_mem (List.mem_toFinset.mpr (ExtTreeMap.mem_keys.mpr hj))

/-- Two maps whose keys all read the same weight have the same total. -/
theorem total_congr [DecidableEq K] (weight : K → V → Nat) {m m' : ExtTreeMap K V cmp}
    (h : ∀ k, weightAt weight m k = weightAt weight m' k) : total weight m = total weight m' := by
  rw [total_eq_sum weight m (m.keys.toFinset ∪ m'.keys.toFinset),
    total_eq_sum weight m' (m.keys.toFinset ∪ m'.keys.toFinset)]
  · exact Finset.sum_congr rfl (fun k _ => h k)
  · intro k hk
    exact Finset.mem_union_right _ (List.mem_toFinset.mpr (ExtTreeMap.mem_keys.mpr hk))
  · intro k hk
    exact Finset.mem_union_left _ (List.mem_toFinset.mpr (ExtTreeMap.mem_keys.mpr hk))

/-! ## How many keys are of a kind -/

/-- The number of entries whose key is of a kind. -/
def count (kind : K → Bool) (m : ExtTreeMap K V cmp) : Nat :=
  m.toList.countP (fun p => kind p.1)

omit [LawfulEqCmp cmp] in
theorem count_eq_total (kind : K → Bool) (m : ExtTreeMap K V cmp) :
    count kind m = total (fun k _ => (kind k).toNat) m := by
  unfold count total
  induction m.toList with
  | nil => rfl
  | cons p l ih =>
    rw [List.countP_cons, List.map_cons, List.sum_cons, ih, Nat.add_comm]
    cases hkind : kind p.1 with
    | true => simp [hkind]
    | false => simp [hkind]

/-- An insert counts when its key is of the kind and new. -/
theorem count_insert [DecidableEq K] (kind : K → Bool) (m : ExtTreeMap K V cmp) (k : K) (v : V) :
    count kind (m.insert k v) =
      count kind m + if kind k = true ∧ m[k]? = none then 1 else 0 := by
  have htotal := total_insert (fun k (_ : V) => (kind k).toNat) m k v
  rw [count_eq_total, count_eq_total]
  unfold weightAt at htotal
  cases hread : m[k]? with
  | none =>
    rw [hread] at htotal
    cases hkind : kind k with
    | true => simpa [hkind] using htotal
    | false => simpa [hkind] using htotal
  | some w =>
    rw [hread] at htotal
    rw [if_neg (by simp)]
    simpa using htotal

/-! ## A list that names every entry once -/

/-- The list has one entry for each key that the lookup finds, and no other. -/
structure Lists (entries : List (K × V)) (lookup : K → Option V) : Prop where
  nodup : (entries.map Prod.fst).Nodup
  mem_iff : ∀ k v, (k, v) ∈ entries ↔ lookup k = some v

theorem Lists.congr {entries : List (K × V)} {lookup lookup' : K → Option V}
    (h : Lists entries lookup) (hsame : ∀ k, lookup' k = lookup k) : Lists entries lookup' :=
  ⟨h.nodup, fun k v => by rw [hsame]; exact h.mem_iff k v⟩

/-- A key that was free is added at the end. -/
theorem Lists.add [DecidableEq K] {entries : List (K × V)} {lookup lookup' : K → Option V} {k : K}
    {v : V} (h : Lists entries lookup) (hfree : lookup k = none)
    (hadded : ∀ j, lookup' j = if k = j then some v else lookup j) :
    Lists (entries ++ [(k, v)]) lookup' := by
  have hnot : k ∉ entries.map Prod.fst := by
    intro hk
    obtain ⟨⟨k', v'⟩, hmem, rfl⟩ := List.mem_map.mp hk
    rw [h.mem_iff, hfree] at hmem
    cases hmem
  constructor
  · rw [List.map_append, List.map_cons, List.map_nil, List.nodup_append]
    refine ⟨h.nodup, List.nodup_singleton k, ?_⟩
    rintro a ha b hb rfl
    rw [List.mem_singleton.mp hb] at ha
    exact hnot ha
  · intro j w
    rw [List.mem_append, List.mem_singleton, h.mem_iff, hadded, Prod.mk.injEq]
    by_cases hj : k = j
    · subst hj
      rw [if_pos rfl, hfree]
      simp [eq_comm]
    · rw [if_neg hj]
      simp [Ne.symm hj]

end finite_map
