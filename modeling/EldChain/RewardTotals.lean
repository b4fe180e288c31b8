-- The rewards of a provider over a range of heights. Each reward is a key of
-- the index with the provider, the height and the index in the block. The
-- keys of a provider stand in the order of the positions, so the count can
-- start at the first height and stop at the first key past the last.
import EldChain.CadoPaths
import EldChain.IndexCounters
import EldChain.Library.PrefixScans

open Std

namespace eld_chain

variable {o : Outside}

/-! ## Reading a key -/

/-- The provider is given back as the text that the key has. -/
def parse_verified_proof_reward_index_key (key_str : Text) : Option (Text × UInt64 × UInt32) := do
  let rest ← strip_leading "vp:".toList key_str
  match rest.splitOn ':' with
  | [addr, h_hex, bi_hex] =>
    let h ← from_str_radix_16 64 h_hex
    let bi ← from_str_radix_16 32 bi_hex
    some (addr, UInt64.ofNat h, UInt32.ofNat bi)
  | _ => none

/-! ## The count -/

/-- `format!("vp:{normalized}:")`. -/
def reward_prefix_of (provider : Address) : Text := "vp:".toList ++ Address.text provider ++ [':']

/-- The loop of `aggregate_verified_proof_rewards`. -/
def rewardLoop (lead : Text) (from_height to_height : UInt64) : List Text → UInt64 → UInt64
  | [], count => count
  | key :: rows, count =>
    if lead.isPrefixOf key = false then count
    else match parse_verified_proof_reward_index_key key with
      | none => rewardLoop lead from_height to_height rows count
      | some (_, h, _) =>
        if h < from_height then rewardLoop lead from_height to_height rows count
        else if to_height < h then count
        else rewardLoop lead from_height to_height rows (count + 1)

/-- `u128::saturating_mul`. -/
def u128_saturating_mul (a b : Nat) : Nat := min (a * b) (2 ^ 128 - 1)

def aggregate_verified_proof_rewards (cf : IndexedTransactions) (provider : Text)
    (from_height to_height : UInt64) (reward_per_proof : Nat) :
    Except EldError (UInt64 × Nat) := do
  let addr ← Address.parse_hex_str provider
  let lower := verified_proof_reward_index_key addr from_height 0
  let count := rewardLoop (reward_prefix_of addr) from_height to_height
    (scans.seek lower cf.keys) 0
  .ok (count, u128_saturating_mul count.toNat reward_per_proof)

/-! ## The keys of a provider -/

theorem colon_notMem_address (provider : Address) : ':' ∉ Address.text provider := by
  intro h
  unfold Address.text at h
  simp only [List.mem_cons, Char.reduceEq, false_or] at h
  exact colon_notMem_hexDigits _ _ h

/-- The parser inverts the builder. -/
theorem parse_reward_index_key (provider : Address) (h : UInt64) (i : UInt32) :
    parse_verified_proof_reward_index_key (verified_proof_reward_index_key provider h i) =
      some (Address.text provider, h, i) := by
  have hh := h.toNat_lt
  have hi := i.toNat_lt
  have hsplit : (Address.text provider ++ ':' :: (hexDigits 16 h.toNat ++
      ':' :: hexDigits 8 i.toNat)).splitOn ':' =
        [Address.text provider, hexDigits 16 h.toNat, hexDigits 8 i.toNat] := by
    rw [List.splitOn_append_cons_self_of_not_mem (colon_notMem_address provider),
      List.splitOn_append_cons_self_of_not_mem (colon_notMem_hexDigits 16 h.toNat),
      List.splitOn_eq_singleton (colon_notMem_hexDigits 8 i.toNat)]
  unfold parse_verified_proof_reward_index_key verified_proof_reward_index_key
  rw [List.append_assoc, List.append_assoc, strip_leading_append]
  simp only [Option.bind_eq_bind, Option.bind_some, List.cons_append, hsplit,
    from_str_radix_16_hexDigits (show 0 < 16 by decide)
      (show h.toNat < 16 ^ 16 by omega) hh,
    from_str_radix_16_hexDigits (show 0 < 8 by decide)
      (show i.toNat < 16 ^ 8 by omega) hi, UInt64.ofNat_toNat, UInt32.ofNat_toNat]

theorem reward_index_key_inj {provider provider' : Address} {h h' : UInt64} {i i' : UInt32}
    (heq : verified_proof_reward_index_key provider h i =
      verified_proof_reward_index_key provider' h' i') :
    provider = provider' ∧ h = h' ∧ i = i' := by
  have hparse := parse_reward_index_key provider h i
  rw [heq, parse_reward_index_key, Option.some.injEq, Prod.mk.injEq, Prod.mk.injEq] at hparse
  exact ⟨(Address.text_inj hparse.1).symm, hparse.2.1.symm, hparse.2.2.symm⟩

theorem reward_index_key_eq (provider : Address) (h : UInt64) (i : UInt32) :
    verified_proof_reward_index_key provider h i =
      reward_prefix_of provider ++ (hexDigits 16 h.toNat ++ ':' :: hexDigits 8 i.toNat) := by
  unfold verified_proof_reward_index_key reward_prefix_of
  simp only [List.append_assoc, List.cons_append, List.nil_append]

/-- The keys of a provider are in the order of their positions. -/
theorem compare_reward_index_key (provider : Address) (h h' : UInt64) (i i' : UInt32) :
    compare (verified_proof_reward_index_key provider h i)
        (verified_proof_reward_index_key provider h' i') =
      compare (positionOf h i) (positionOf h' i') := by
  rw [reward_index_key_eq, reward_index_key_eq, scans.compare_append_same]
  exact compare_position_hex h h' i i'

theorem reward_key_lead (provider : Address) (h : UInt64) (i : UInt32) :
    reward_prefix_of provider <+: verified_proof_reward_index_key provider h i := by
  rw [reward_index_key_eq]
  exact List.prefix_append _ _

/-- The prefix of a provider leads no key of another one. -/
theorem provider_of_lead {provider provider' : Address} {h : UInt64} {i : UInt32}
    (hlead : reward_prefix_of provider <+: verified_proof_reward_index_key provider' h i) :
    provider' = provider := by
  obtain ⟨rest, hrest⟩ := hlead
  have hsplit := congrArg (fun key => (key.drop 3).splitOn ':') hrest
  have hleft : ((reward_prefix_of provider ++ rest).drop 3).splitOn ':' =
      Address.text provider :: rest.splitOn ':' := by
    have hdrop : (reward_prefix_of provider ++ rest).drop 3 =
        Address.text provider ++ ':' :: rest := by
      unfold reward_prefix_of
      simp
    rw [hdrop, List.splitOn_append_cons_self_of_not_mem (colon_notMem_address provider)]
  have hright : ((verified_proof_reward_index_key provider' h i).drop 3).splitOn ':' =
      Address.text provider' :: (hexDigits 16 h.toNat ++ ':' :: hexDigits 8 i.toNat).splitOn ':' := by
    have hdrop : (verified_proof_reward_index_key provider' h i).drop 3 =
        Address.text provider' ++ ':' :: (hexDigits 16 h.toNat ++ ':' :: hexDigits 8 i.toNat) := by
      unfold verified_proof_reward_index_key
      simp
    rw [hdrop, List.splitOn_append_cons_self_of_not_mem (colon_notMem_address provider')]
  rw [hleft, hright] at hsplit
  exact Address.text_inj (List.cons.inj hsplit).1.symm

/-! ## The rows of rewards -/

/-- The call indexes a successful proof of the provider that did not fail. -/
def IndexCall.Rewards (call : IndexCall o) (provider : Address) : Prop :=
  call.status = .Success ∧ ∃ vp_tx, call.tx.payload.inner = .VerifiedProof vp_tx ∧
    vp_tx.failed = false ∧ vp_tx.capacity_provider = provider

theorem reward_key_iff {call : IndexCall o} {provider : Address} {h : UInt64} {i : UInt32} :
    call.reward_key = some (verified_proof_reward_index_key provider h i) ↔
      call.Rewards provider ∧ call.block_height = h ∧ call.block_index = i := by
  unfold IndexCall.reward_key IndexCall.Rewards
  constructor
  · intro hkey
    split at hkey
    · rename_i hstatus
      split at hkey
      · rename_i vp_tx hinner
        split at hkey
        · cases hkey
        · rename_i hfailed
          rw [Option.some.injEq] at hkey
          obtain ⟨hprovider, hheight, hindex⟩ := reward_index_key_inj hkey
          exact ⟨⟨hstatus, vp_tx, hinner, Bool.eq_false_iff.mpr hfailed, hprovider⟩, hheight,
            hindex⟩
      · cases hkey
    · cases hkey
  · rintro ⟨⟨hstatus, vp_tx, hinner, hfailed, rfl⟩, rfl, rfl⟩
    rw [if_pos hstatus, hinner]
    simp only [hfailed, Bool.false_eq_true, if_false]

/-- A call leaves the keys of rewards, and its own. -/
theorem index_transaction_rewards {call : IndexCall o} {cf cf' : IndexedTransactions}
    (h : index_transaction cf call = .ok cf') {key : Text} (hkey : isRewardKey key = true) :
    key ∈ cf' ↔ key ∈ cf ∨ call.reward_key = some key := by
  have hmarks := @attempt_marks o ⟨call, none⟩ cf cf' h key hkey
  have hmarked : (⟨call, none⟩ : Attempt o).marked = call.reward_key := rfl
  rw [hmarked] at hmarks
  rw [ExtTreeMap.mem_iff_isSome_getElem?, ExtTreeMap.mem_iff_isSome_getElem?,
    ← not_iff_not, Option.not_isSome_iff_eq_none, hmarks, not_or, Option.not_isSome_iff_eq_none]

/-- The keys of rewards are those of the calls. -/
theorem reward_rows_of_calls {calls : List (IndexCall o)} {cf : IndexedTransactions}
    (hcf : index_all ∅ calls = .ok cf) {key : Text} (hkey : isRewardKey key = true) :
    key ∈ cf ↔ ∃ call ∈ calls, call.reward_key = some key := by
  induction calls using List.reverseRecOn generalizing cf with
  | nil =>
    cases hcf
    simp
  | append_singleton calls call ih =>
    obtain ⟨cf₁, hcalls, hcall⟩ := index_all_snoc hcf
    rw [index_transaction_rewards hcall hkey, ih hcalls]
    simp only [List.mem_append, List.mem_singleton, or_and_right, exists_or, exists_eq_left]

/-! ## The walk -/

/-- The position of a key is of the provider, and in the range. -/
def countedKey (lead : Text) (from_height to_height : UInt64) (key : Text) : Bool :=
  lead.isPrefixOf key && (parse_verified_proof_reward_index_key key).any
    (fun found => decide (from_height ≤ found.2.1 ∧ found.2.1 ≤ to_height))

theorem countedKey_reward (provider : Address) (from_height to_height h : UInt64) (i : UInt32) :
    countedKey (reward_prefix_of provider) from_height to_height
      (verified_proof_reward_index_key provider h i) =
        decide (from_height ≤ h ∧ h ≤ to_height) := by
  have hlead := List.isPrefixOf_iff_prefix.mpr (reward_key_lead provider h i)
  unfold countedKey
  rw [hlead, parse_reward_index_key, Option.any_some, Bool.true_and]

/-- The rows of a walk: in order, none below the prefix of the provider, and those with the
prefix are its rewards. -/
structure RewardWalk (provider : Address) (keys : List Text) : Prop where
  rising : scans.Rising keys
  above : ∀ key ∈ keys, compare key (reward_prefix_of provider) ≠ .lt
  rewards : ∀ key ∈ keys, reward_prefix_of provider <+: key →
    ∃ h i, key = verified_proof_reward_index_key provider h i

theorem RewardWalk.tail {provider : Address} {key : Text} {keys : List Text}
    (hwalk : RewardWalk provider (key :: keys)) : RewardWalk provider keys where
  rising := List.Pairwise.of_cons hwalk.rising
  above k hk := hwalk.above k (List.mem_cons_of_mem _ hk)
  rewards k hk := hwalk.rewards k (List.mem_cons_of_mem _ hk)

/-- A later key of a provider is not of an earlier height. -/
theorem height_le_of_compare {provider : Address} {h h' : UInt64} {i i' : UInt32}
    (hlt : compare (verified_proof_reward_index_key provider h i)
      (verified_proof_reward_index_key provider h' i') = .lt) : h ≤ h' := by
  have hi := i.toNat_lt
  have hi' := i'.toNat_lt
  rw [compare_reward_index_key, Nat.compare_eq_lt] at hlt
  unfold positionOf at hlt
  exact UInt64.le_iff_toNat_le.mpr (by omega)

/-- The loop counts the rows of the range: past a row without the prefix, or above the last
height, there are none. -/
theorem rewardLoop_eq {provider : Address} {from_height to_height : UInt64} {keys : List Text}
    (hwalk : RewardWalk provider keys) (count : UInt64) :
    rewardLoop (reward_prefix_of provider) from_height to_height keys count =
      count + .ofNat (keys.filter
        (countedKey (reward_prefix_of provider) from_height to_height)).length := by
  induction keys generalizing count with
  | nil =>
    rw [rewardLoop, List.filter_nil]
    exact (UInt64.add_zero count).symm
  | cons key keys ih =>
    have hrest := ih hwalk.tail
    have hlater : ∀ later ∈ keys, compare key later = .lt :=
      (List.pairwise_cons.mp hwalk.rising).1
    rw [rewardLoop]
    cases hkey : (reward_prefix_of provider).isPrefixOf key with
    | false =>
      have hnone : (key :: keys).filter
          (countedKey (reward_prefix_of provider) from_height to_height) = [] := by
        rw [List.filter_eq_nil_iff]
        intro later hmem
        have hlead : (reward_prefix_of provider).isPrefixOf later = false := by
          rcases List.mem_cons.mp hmem with rfl | hmem
          · exact hkey
          · exact scans.not_lead_of_past (hwalk.above key List.mem_cons_self) hkey
              (hlater later hmem)
        unfold countedKey
        rw [hlead, Bool.false_and]
        exact Bool.false_ne_true
      rw [if_pos rfl, hnone]
      exact (UInt64.add_zero count).symm
    | true =>
      obtain ⟨h, i, rfl⟩ :=
        hwalk.rewards key List.mem_cons_self (List.isPrefixOf_iff_prefix.mp hkey)
      have hcounted := countedKey_reward provider from_height to_height h i
      rw [if_neg Bool.noConfusion, parse_reward_index_key]
      simp only
      by_cases hbefore : h < from_height
      · rw [if_pos hbefore, List.filter_cons_of_neg, hrest]
        rw [hcounted, decide_eq_true_eq]
        exact fun hin => absurd hin.1 (UInt64.not_le.mpr hbefore)
      · rw [if_neg hbefore]
        by_cases hpast : to_height < h
        · have hnone : (verified_proof_reward_index_key provider h i :: keys).filter
              (countedKey (reward_prefix_of provider) from_height to_height) = [] := by
            rw [List.filter_eq_nil_iff]
            intro later hmem hlater_counted
            have hlead : (reward_prefix_of provider).isPrefixOf later = true :=
              (Bool.and_eq_true _ _ ▸ hlater_counted).1
            obtain ⟨h', i', rfl⟩ :=
              hwalk.rewards later hmem (List.isPrefixOf_iff_prefix.mp hlead)
            rw [countedKey_reward, decide_eq_true_eq] at hlater_counted
            have hheight : h ≤ h' := by
              rcases List.mem_cons.mp hmem with heq | hmem
              · rw [(reward_index_key_inj heq).2.1]
                exact UInt64.le_refl h
              · exact height_le_of_compare (hlater _ hmem)
            exact absurd (UInt64.le_trans hheight hlater_counted.2) (UInt64.not_le.mpr hpast)
          rw [if_pos hpast, hnone]
          exact (UInt64.add_zero count).symm
        · have hone : UInt64.ofNat 1 = 1 := rfl
          have hin : from_height ≤ h ∧ h ≤ to_height :=
            ⟨UInt64.not_lt.mp hbefore, UInt64.not_lt.mp hpast⟩
          rw [if_neg hpast, List.filter_cons_of_pos (by rw [hcounted]; exact decide_eq_true hin),
            hrest, List.length_cons, UInt64.ofNat_add, hone, UInt64.add_assoc,
            UInt64.add_comm 1]

/-! ## The total -/

variable {calls : List (IndexCall o)} {cf : IndexedTransactions} {provider : Address}
variable {from_height to_height : UInt64}

/-- A key with the prefix of a provider is that of a reward of the provider. -/
theorem reward_of_lead (hcf : index_all ∅ calls = .ok cf) {key : Text} (hkey : key ∈ cf)
    (hlead : reward_prefix_of provider <+: key) :
    ∃ h i, key = verified_proof_reward_index_key provider h i := by
  have hreward : isRewardKey key = true := by
    have hvp : "vp:".toList <+: reward_prefix_of provider := by
      unfold reward_prefix_of
      rw [List.append_assoc]
      exact List.prefix_append _ _
    exact List.isPrefixOf_iff_prefix.mpr (hvp.trans hlead)
  obtain ⟨call, _, hcall⟩ := (reward_rows_of_calls hcf hreward).mp hkey
  obtain ⟨provider', rfl⟩ := reward_key_form hcall
  rw [provider_of_lead hlead]
  exact ⟨_, _, rfl⟩

theorem rewardWalk_of_calls (hcf : index_all ∅ calls = .ok cf) :
    RewardWalk provider
      (scans.seek (verified_proof_reward_index_key provider from_height 0) cf.keys) := by
  have hrising : scans.Rising cf.keys := ExtTreeMap.ordered_keys
  have hseek := scans.seek_eq_filter (verified_proof_reward_index_key provider from_height 0) hrising
  rw [hseek]
  constructor
  · exact hrising.filter _
  · intro key hkey hbelow
    have hstart : (compare (reward_prefix_of provider)
        (verified_proof_reward_index_key provider from_height 0)).isLE = true := by
      have hsame := scans.compare_append_same (reward_prefix_of provider) []
        (hexDigits 16 from_height.toNat ++ ':' :: hexDigits 8 (0 : UInt32).toNat)
      rw [List.append_nil] at hsame
      rw [reward_index_key_eq, hsame]
      cases hexDigits 16 from_height.toNat <;> rfl
    have hlt := TransCmp.lt_of_lt_of_isLE hbelow hstart
    have hnot := (List.mem_filter.mp hkey).2
    rw [hlt] at hnot
    cases hnot
  · intro key hkey hlead
    exact reward_of_lead hcf (ExtTreeMap.mem_keys.mp (List.mem_of_mem_filter hkey)) hlead

/-- No row of the range is before the start of the walk. -/
theorem counted_rows_eq (hcf : index_all ∅ calls = .ok cf) :
    (scans.seek (verified_proof_reward_index_key provider from_height 0) cf.keys).filter
        (countedKey (reward_prefix_of provider) from_height to_height) =
      cf.keys.filter (countedKey (reward_prefix_of provider) from_height to_height) := by
  have hrising : scans.Rising cf.keys := ExtTreeMap.ordered_keys
  rw [scans.seek_eq_filter _ hrising, List.filter_filter]
  apply List.filter_congr
  intro key hkey
  cases hcounted : countedKey (reward_prefix_of provider) from_height to_height key with
  | false => rw [Bool.false_and]
  | true =>
    have hlead : reward_prefix_of provider <+: key :=
      List.isPrefixOf_iff_prefix.mp (Bool.and_eq_true _ _ ▸ hcounted).1
    obtain ⟨h, i, rfl⟩ := reward_of_lead hcf (ExtTreeMap.mem_keys.mp hkey) hlead
    rw [countedKey_reward, decide_eq_true_eq] at hcounted
    have hle := UInt64.le_iff_toNat_le.mp hcounted.1
    have hzero : (0 : UInt32).toNat = 0 := rfl
    have hstart : ¬ positionOf h i < positionOf from_height 0 := by
      unfold positionOf
      omega
    rw [compare_reward_index_key, Bool.true_and, Bool.not_eq_true', Bool.eq_false_iff, ne_eq,
      Ordering.isLT_iff_eq_lt, Nat.compare_eq_lt]
    exact hstart

/-- Each position once, and those at which a proof of the provider was indexed. -/
structure RewardedPositions (calls : List (IndexCall o)) (provider : Address)
    (from_height to_height : UInt64) (positions : List (UInt64 × UInt32)) : Prop where
  nodup : positions.Nodup
  mem_iff : ∀ h i, (h, i) ∈ positions ↔ (from_height ≤ h ∧ h ≤ to_height) ∧
    ∃ call ∈ calls, call.Rewards provider ∧ call.block_height = h ∧ call.block_index = i

/-- The position that a key was built for. -/
def keyPosition (key : Text) : UInt64 × UInt32 :=
  ((parse_verified_proof_reward_index_key key).map (fun found => found.2)).getD (0, 0)

theorem keyPosition_reward (provider : Address) (h : UInt64) (i : UInt32) :
    keyPosition (verified_proof_reward_index_key provider h i) = (h, i) := by
  unfold keyPosition
  rw [parse_reward_index_key]
  rfl

theorem rewardedPositions_of_calls (hcf : index_all ∅ calls = .ok cf) :
    RewardedPositions calls provider from_height to_height ((cf.keys.filter
      (countedKey (reward_prefix_of provider) from_height to_height)).map keyPosition) := by
  have hform : ∀ key ∈ cf.keys.filter
      (countedKey (reward_prefix_of provider) from_height to_height),
      ∃ h i, key = verified_proof_reward_index_key provider h i := by
    intro key hkey
    obtain ⟨hmem, hcounted⟩ := List.mem_filter.mp hkey
    exact reward_of_lead hcf (ExtTreeMap.mem_keys.mp hmem)
      (List.isPrefixOf_iff_prefix.mp (Bool.and_eq_true _ _ ▸ hcounted).1)
  constructor
  · refine (ExtTreeMap.nodup_keys.filter _).map_on ?_
    intro key hkey key' hkey' hsame
    obtain ⟨h, i, rfl⟩ := hform key hkey
    obtain ⟨h', i', rfl⟩ := hform key' hkey'
    rw [keyPosition_reward, keyPosition_reward, Prod.mk.injEq] at hsame
    rw [hsame.1, hsame.2]
  · intro h i
    have hreward : isRewardKey (verified_proof_reward_index_key provider h i) = true := rfl
    have hmem : (h, i) ∈ (cf.keys.filter
          (countedKey (reward_prefix_of provider) from_height to_height)).map keyPosition ↔
        verified_proof_reward_index_key provider h i ∈ cf.keys.filter
          (countedKey (reward_prefix_of provider) from_height to_height) := by
      rw [List.mem_map]
      constructor
      · rintro ⟨key, hkey, hposition⟩
        obtain ⟨h', i', rfl⟩ := hform key hkey
        rw [keyPosition_reward, Prod.mk.injEq] at hposition
        rw [← hposition.1, ← hposition.2]
        exact hkey
      · intro hkey
        exact ⟨_, hkey, keyPosition_reward provider h i⟩
    rw [hmem, List.mem_filter, countedKey_reward, decide_eq_true_eq, ExtTreeMap.mem_keys,
      reward_rows_of_calls hcf hreward, and_comm]
    simp only [reward_key_iff]

/-- For every sequence of calls, every spelling of a provider and every range of heights: the
count is of the positions in the range at which a successful proof of the provider was indexed
that did not fail, each of them once, and the parser of the keys inverts their builder. -/
theorem reward_totals_are_exact (calls : List (IndexCall o)) (cf : IndexedTransactions)
    (hcf : index_all ∅ calls = .ok cf) (provider : Text) (addr : Address)
    (hprovider : Address.parse_hex_str provider = .ok addr) (from_height to_height : UInt64)
    (reward_per_proof : Nat) :
    (∃ positions count, RewardedPositions calls addr from_height to_height positions ∧
      count = UInt64.ofNat positions.length ∧
      aggregate_verified_proof_rewards cf provider from_height to_height reward_per_proof =
        .ok (count, u128_saturating_mul count.toNat reward_per_proof)) ∧
    ∀ (provider : Address) (h : UInt64) (i : UInt32),
      parse_verified_proof_reward_index_key (verified_proof_reward_index_key provider h i) =
        some (Address.text provider, h, i) := by
  refine ⟨⟨_, _, rewardedPositions_of_calls hcf, rfl, ?_⟩, parse_reward_index_key⟩
  have hcount := @rewardLoop_eq addr from_height to_height _
    (@rewardWalk_of_calls o calls cf addr from_height hcf) 0
  rw [counted_rows_eq hcf, UInt64.zero_add] at hcount
  unfold aggregate_verified_proof_rewards
  rw [hprovider]
  simp only [bind, Except.bind, hcount, List.length_map]

/-- Alice's address, spelled without its prefix. -/
def aliceBare : Text := (Address.text alice).drop 2

theorem reward_totals_of_alice :
    ∃ cf, index_all ∅ [aliceRewarded] = .ok cf ∧
      ∃ positions count, RewardedPositions [aliceRewarded] alice 1 5 positions ∧
        count = UInt64.ofNat positions.length ∧
        aggregate_verified_proof_rewards cf aliceBare 1 5 1000 =
          .ok (count, u128_saturating_mul count.toNat 1000) := by
  have hspelled : Address.parse_hex_str aliceBare = .ok alice := by decide +kernel
  obtain ⟨cf, hcall⟩ := @index_transaction_ok Outside.toy aliceRewarded ∅
    (fun _ row hrow => by cases hrow)
  have hcf : index_all ∅ [aliceRewarded] = .ok cf := by
    unfold index_all
    rw [List.foldlM_cons, hcall]
    rfl
  exact ⟨cf, hcf, (reward_totals_are_exact [aliceRewarded] cf hcf aliceBare alice hspelled
    1 5 1000).1⟩

end eld_chain
