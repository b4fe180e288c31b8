-- The selection of the capacity validator and of the providers it
-- challenges. The list is filtered and sorted before anything is drawn, so
-- its order does not matter; what is drawn is eligible, distinct and as
-- many as asked.
import EldChain.EpochRecords
import EldChain.Library.Selection

open Std

namespace eld_chain

open selection

variable {o : Outside} {pc : ProtocolConstants}

/-- A provider that may be selected or challenged at the height of a state. -/
def AppStateEnvelope.Eligible (e : AppStateEnvelope) (cv : CapacityValidatorInfo) : Prop :=
  cv ∈ e.capacity_validators ∧ cv.merkle_root.isSome = true ∧
    asU64 e.block_height.val ≤ cv.registered_block + cv.registration_duration

/-- The same state with its providers in another list. -/
def AppState.withProviders (s : AppState) (l : List CapacityValidatorInfo) : AppState :=
  { s with envelope := { s.envelope with capacity_validators := l } }

/-- How many providers the selected one may challenge: all others, or itself when it is
alone. -/
def AppStateEnvelope.poolSize (e : AppStateEnvelope) : Nat :=
  if (eligibleValidators e).length = 1 then 1 else (eligibleValidators e).length - 1

/-- A selection that is well formed: the selected provider is eligible, the challenged ones
are distinct and eligible, as many as the constants ask for or the pool holds, and the
selected one is among them only when no other provider is eligible. -/
structure WellChosen (pc : ProtocolConstants) (e : AppStateEnvelope)
    (active : ActiveCapacityValidator) : Prop where
  selected : ∃ cv, e.Eligible cv ∧ cv.address = active.validator_address
  distinct : active.challenged_providers.Nodup
  challenged : ∀ a ∈ active.challenged_providers, ∃ cv, e.Eligible cv ∧ cv.address = a
  not_itself : active.validator_address ∈ active.challenged_providers →
    ∀ cv, e.Eligible cv → cv.address = active.validator_address
  count : active.challenged_providers.length = min pc.challenges_per_epoch e.poolSize

theorem mem_eligibleValidators {e : AppStateEnvelope} {cv : CapacityValidatorInfo} :
    cv ∈ eligibleValidators e ↔ e.Eligible cv := by
  unfold eligibleValidators AppStateEnvelope.Eligible
  simp [List.mem_insertionSort]

theorem eligible_addresses_nodup {e : AppStateEnvelope}
    (hnodup : (e.capacity_validators.map (fun cv => cv.address)).Nodup) :
    ((eligibleValidators e).map (fun cv => cv.address)).Nodup := by
  unfold eligibleValidators
  simp only
  rw [((List.perm_insertionSort _ _).map _).nodup_iff]
  exact hnodup.sublist (List.filter_sublist.map _)

/-! ## The order of the list -/

theorem eligibleValidators_perm {s : AppState} {l : List CapacityValidatorInfo}
    (hperm : l.Perm s.envelope.capacity_validators)
    (hnodup : (s.envelope.capacity_validators.map (fun cv => cv.address)).Nodup) :
    eligibleValidators (s.withProviders l).envelope = eligibleValidators s.envelope := by
  unfold eligibleValidators AppState.withProviders
  simp only
  apply @sorted_by_key_eq _ _ compare _ _ (fun cv : CapacityValidatorInfo => cv.address)
  · exact hperm.filter _
  · have hnodup' := (hperm.map (fun cv => cv.address)).nodup_iff.mpr hnodup
    exact hnodup'.sublist (List.filter_sublist.map _)

theorem select_withProviders {s : AppState} {l : List CapacityValidatorInfo} (epoch : I64)
    (hperm : l.Perm s.envelope.capacity_validators)
    (hnodup : (s.envelope.capacity_validators.map (fun cv => cv.address)).Nodup) :
    select_active_capacity_validator_for_epoch o pc (s.withProviders l) epoch =
      (select_active_capacity_validator_for_epoch o pc s epoch).withProviders l := by
  have hchain : (s.withProviders l).chain_id = s.chain_id := rfl
  unfold select_active_capacity_validator_for_epoch
  simp only [eligibleValidators_perm hperm hnodup, hchain]
  cases (o.shuffle (selectionSeed o epoch s.chain_id (eligibleValidators s.envelope)) []
    (eligibleValidators s.envelope)).head? with
  | none => rfl
  | some selected => rfl

/-! ## What is drawn -/

theorem shuffle_perm {α : Type} (seed : Bytes32) (earlier : List Nat) (l : List α) :
    (o.shuffle seed earlier l).Perm l := by
  have hrange : (List.range l.length).filterMap (fun i => l[i]?) = l := by
    induction l with
    | nil => rfl
    | cons a l ih =>
      rw [List.length_cons, List.range_succ_eq_map, List.filterMap_cons, List.filterMap_map]
      exact congrArg (a :: ·) ih
  have hperm := (o.shuffle_perm seed earlier l.length).filterMap (fun i => l[i]?)
  rw [hrange] at hperm
  exact hperm

theorem length_challengePool {e : AppStateEnvelope} {cv : CapacityValidatorInfo}
    (hnodup : (e.capacity_validators.map (fun cv => cv.address)).Nodup)
    (hcv : cv ∈ eligibleValidators e) :
    (challengePool (eligibleValidators e) cv.address).Nodup ∧
      (challengePool (eligibleValidators e) cv.address).length = e.poolSize := by
  have haddresses := eligible_addresses_nodup hnodup
  unfold challengePool AppStateEnvelope.poolSize
  simp only
  rw [(List.perm_insertionSort _ _).nodup_iff, (List.perm_insertionSort _ _).length_eq]
  by_cases halone : (eligibleValidators e).length = 1
  · rw [if_pos halone, if_pos halone, List.length_map]
    exact ⟨haddresses, halone⟩
  · have hpool : ((eligibleValidators e).filter (fun other => other.address != cv.address)).map
        (fun cv => cv.address) =
        ((eligibleValidators e).map (fun cv => cv.address)).erase cv.address := by
      rw [haddresses.erase_eq_filter, List.filter_map]
      rfl
    rw [if_neg halone, if_neg halone, hpool,
      List.length_erase_of_mem (List.mem_map_of_mem hcv), List.length_map]
    exact ⟨haddresses.erase _, rfl⟩

theorem select_wellChosen {s : AppState} {epoch : I64} {active : ActiveCapacityValidator}
    (hnodup : (s.envelope.capacity_validators.map (fun cv => cv.address)).Nodup)
    (h : (select_active_capacity_validator_for_epoch o pc s epoch).envelope.active_capacity_validator =
      some active) : WellChosen pc s.envelope active := by
  unfold select_active_capacity_validator_for_epoch at h
  simp only at h
  split at h
  · cases h
  · rename_i selected hselected
    cases h
    have hmem : selected ∈ eligibleValidators s.envelope :=
      mem_of_mem_shuffle (List.mem_of_head? hselected)
    obtain ⟨hpool, hlen⟩ := length_challengePool hnodup hmem
    have hshuffled := shuffle_perm (o := o) (selectionSeed o epoch s.chain_id
      (eligibleValidators s.envelope)) [(eligibleValidators s.envelope).length]
      (challengePool (eligibleValidators s.envelope) selected.address)
    refine ⟨⟨selected, mem_eligibleValidators.mp hmem, rfl⟩, ?_, ?_, ?_, ?_⟩
    · exact (hshuffled.nodup_iff.mpr hpool).sublist (List.take_sublist _ _)
    · intro a ha
      obtain ⟨cv, hcv, haddr⟩ := mem_challengePool (mem_of_mem_shuffle (List.mem_of_mem_take ha))
      exact ⟨cv, mem_eligibleValidators.mp hcv, haddr⟩
    · intro ha cv hcv
      have hin := mem_of_mem_shuffle (List.mem_of_mem_take ha)
      unfold challengePool at hin
      simp only [List.mem_insertionSort] at hin
      by_cases halone : (eligibleValidators s.envelope).length = 1
      · obtain ⟨only, honly⟩ := List.length_eq_one_iff.mp halone
        have hcv' := mem_eligibleValidators.mpr hcv
        rw [honly, List.mem_singleton] at hcv' hmem
        rw [hcv', hmem]
      · rw [if_neg halone] at hin
        obtain ⟨other, hother, haddr⟩ := List.mem_map.mp hin
        have hne := List.of_mem_filter hother
        rw [haddr] at hne
        simp at hne
    · rw [List.length_take, hshuffled.length_eq, hlen, Nat.min_assoc, Nat.min_self]

theorem select_none_iff {s : AppState} {epoch : I64} :
    (select_active_capacity_validator_for_epoch o pc s epoch).envelope.active_capacity_validator =
      none ↔ ∀ cv, ¬ s.envelope.Eligible cv := by
  have hempty : (∀ cv, ¬ s.envelope.Eligible cv) ↔ eligibleValidators s.envelope = [] := by
    rw [List.eq_nil_iff_forall_not_mem]
    simp only [mem_eligibleValidators]
  have hshuffled := shuffle_perm (o := o) (selectionSeed o epoch s.chain_id
    (eligibleValidators s.envelope)) [] (eligibleValidators s.envelope)
  rw [hempty]
  unfold select_active_capacity_validator_for_epoch
  simp only
  split
  · rename_i hnone
    rw [List.head?_eq_none_iff] at hnone
    rw [hnone] at hshuffled
    simp only [true_iff]
    exact List.nil_perm.mp hshuffled
  · rename_i selected hselected
    simp only [reduceCtorEq, false_iff]
    intro hnil
    have hmem := hshuffled.mem_iff.mp (List.mem_of_head? hselected)
    rw [hnil] at hmem
    cases hmem

/-- The selection does not depend on the order of the list of providers, and it is well
formed: for every epoch and chain, another order of a list with distinct addresses gives the
same selection; nobody is selected exactly when nobody is eligible; and a selection is
`WellChosen`. -/
theorem selection_ignores_list_order (s : AppState) (epoch : I64)
    {l : List CapacityValidatorInfo} (hperm : l.Perm s.envelope.capacity_validators)
    (hnodup : (s.envelope.capacity_validators.map (fun cv => cv.address)).Nodup) :
    select_active_capacity_validator_for_epoch o pc (s.withProviders l) epoch =
      (select_active_capacity_validator_for_epoch o pc s epoch).withProviders l ∧
    ((select_active_capacity_validator_for_epoch o pc s
      epoch).envelope.active_capacity_validator = none ↔ ∀ cv, ¬ s.envelope.Eligible cv) ∧
    ∀ active, (select_active_capacity_validator_for_epoch o pc s
      epoch).envelope.active_capacity_validator = some active →
        WellChosen pc s.envelope active :=
  ⟨select_withProviders epoch hperm hnodup, select_none_iff,
    fun _ hactive => select_wellChosen hnodup hactive⟩

/-- A provider with a root and a lease up to block 100. -/
def leasedProvider (address : Address) : CapacityValidatorInfo where
  address := address
  stake := Coin.zero
  public_key := 0
  storage_capacity := 1024
  merkle_root := some 0
  seed := none
  chunk_count := some 1
  registered_at := none
  last_merkle_root_update := none
  registered_block := 1
  registration_duration := 99

/-- Two providers in either order. -/
theorem selection_ignores_list_order_of_two :
    select_active_capacity_validator_for_epoch Outside.toy ProtocolConstants.local_dev
      (AppState.default.withProviders [leasedProvider 2, leasedProvider 1]) I64.zero =
    (select_active_capacity_validator_for_epoch Outside.toy ProtocolConstants.local_dev
      (AppState.default.withProviders [leasedProvider 1, leasedProvider 2])
      I64.zero).withProviders [leasedProvider 2, leasedProvider 1] :=
  (selection_ignores_list_order
    (AppState.default.withProviders [leasedProvider 1, leasedProvider 2]) I64.zero
    (List.Perm.swap _ _ _) (by decide)).1

end eld_chain
