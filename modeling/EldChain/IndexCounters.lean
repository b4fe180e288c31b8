-- The counters of the indexer, over attempts of which some stop between two
-- writes. The total counts the records and the global count the rewards,
-- unless a stop or a repetition comes at the wrong place.
import EldChain.Chain
import EldChain.IndexRows
import EldChain.WrittenForms
import Mathlib.Data.Finset.Card

open Std

namespace eld_chain

variable {o : Outside}

/-! ## Attempts -/

/-- One attempt at a call. It makes all writes, or it stops after some of them: the process
dies, or a write fails and the call returns its error. -/
structure Attempt (o : Outside) where
  call : IndexCall o
  stop : Option Nat

def Attempt.writes (a : Attempt o) (cf : IndexedTransactions) : List IndexWrite :=
  match a.stop with
  | none => a.call.writes cf
  | some k => (a.call.writes cf).take k

def attempt (cf : IndexedTransactions) (a : Attempt o) : Except EldError IndexedTransactions :=
  applyWrites cf (a.writes cf)

def attempt_all (cf : IndexedTransactions) (run : List (Attempt o)) :
    Except EldError IndexedTransactions :=
  run.foldlM attempt cf

/-- How many writes an attempt makes at most. -/
def Attempt.reach (a : Attempt o) : Nat := a.stop.getD (a.call.puts.length + 1)

/-- The reward row that an attempt puts: the sixth of its writes. -/
def Attempt.marked (a : Attempt o) : Option Text :=
  match a.stop with
  | none => a.call.reward_key
  | some k => if 6 ≤ k then a.call.reward_key else none

/-- The reward that an attempt counts: the seventh of its writes. -/
def Attempt.counted (a : Attempt o) : Option Text :=
  match a.stop with
  | none => a.call.reward_key
  | some k => if 7 ≤ k then a.call.reward_key else none

theorem IndexCall.writes_length_le (call : IndexCall o) (cf : IndexedTransactions) :
    (call.writes cf).length ≤ call.puts.length + 1 := by
  rw [call.writes_eq]
  by_cases hpresent : cf[call.tx_id]?.isSome = true
  · rw [if_pos hpresent, List.append_nil]
    omega
  · rw [if_neg hpresent, List.length_append, List.length_singleton]

theorem Attempt.writes_eq (a : Attempt o) (cf : IndexedTransactions) :
    a.writes cf = a.call.puts.take a.reach ++
      if cf[a.call.tx_id]? = none ∧ a.call.puts.length < a.reach then [.bump_total] else [] := by
  have htail : ∀ k, (a.call.writes cf).take k = a.call.puts.take k ++
      if cf[a.call.tx_id]? = none ∧ a.call.puts.length < k then [.bump_total] else [] := by
    intro k
    rw [a.call.writes_eq, List.take_append]
    congr 1
    cases hread : cf[a.call.tx_id]? with
    | some row => simp
    | none =>
      by_cases hlt : a.call.puts.length < k
      · rw [if_neg (by simp), if_pos ⟨rfl, hlt⟩, List.take_of_length_le]
        simp only [List.length_singleton]
        omega
      · rw [if_neg (by simp), if_neg (fun h => hlt h.2), Nat.sub_eq_zero_of_le (by omega)]
        rfl
  cases hstop : a.stop with
  | some k =>
    have hreach : a.reach = k := by rw [Attempt.reach, hstop]; rfl
    rw [Attempt.writes, hstop, hreach]
    exact htail k
  | none =>
    have hreach : a.reach = a.call.puts.length + 1 := by rw [Attempt.reach, hstop]; rfl
    have hall := htail (a.call.puts.length + 1)
    rw [List.take_of_length_le (a.call.writes_length_le cf)] at hall
    rw [Attempt.writes, hstop, hreach]
    exact hall

theorem Attempt.writes_subset {a : Attempt o} {cf : IndexedTransactions} {w : IndexWrite}
    (h : w ∈ a.writes cf) : w ∈ a.call.writes cf := by
  unfold Attempt.writes at h
  cases hstop : a.stop with
  | none =>
    rw [hstop] at h
    exact h
  | some k =>
    rw [hstop] at h
    exact List.mem_of_mem_take h

/-! ## Rows -/

def isRewardKey (key : Text) : Bool := "vp:".toList.isPrefixOf key

def primaryRows (cf : IndexedTransactions) : Nat := finite_map.count is_primary_key cf

def rewardRows (cf : IndexedTransactions) : Nat := finite_map.count isRewardKey cf

def IndexWrite.is_reward_bump : IndexWrite → Bool
  | .bump_rewards => true
  | _ => false

/-- A key is free afterwards when it was and no write touched it. -/
theorem applyWrites_none_iff {ws : List IndexWrite} {cf cf' : IndexedTransactions} {key : Text}
    (h : applyWrites cf ws = .ok cf') :
    cf'[key]? = none ↔ cf[key]? = none ∧ key ∉ ws.map IndexWrite.key := by
  induction ws generalizing cf with
  | nil =>
    cases h
    simp
  | cons w ws ih =>
    obtain ⟨cf₁, hw, hws⟩ := applyWrites_cons h
    obtain ⟨row, rfl⟩ := IndexWrite.apply_eq_ok hw
    rw [ih hws, List.map_cons, List.mem_cons, not_or]
    by_cases hkey : key = w.key
    · rw [hkey, ExtTreeMap.getElem?_insert_self]
      simp
    · rw [finite_map.get_insert_of_ne cf row (Ne.symm hkey)]
      simp [hkey]

/-- When the writes touch one key of a kind, they add one row of the kind at most. -/
theorem applyWrites_count {kind : Text → Bool} {ws : List IndexWrite}
    {cf cf' : IndexedTransactions} {key : Text} (hkey : kind key = true)
    (honly : ∀ w ∈ ws, kind w.key = true → w.key = key) (h : applyWrites cf ws = .ok cf') :
    finite_map.count kind cf' = finite_map.count kind cf +
      if cf[key]? = none ∧ key ∈ ws.map IndexWrite.key then 1 else 0 := by
  induction ws generalizing cf with
  | nil =>
    cases h
    rw [if_neg (by simp), Nat.add_zero]
  | cons w ws ih =>
    obtain ⟨cf₁, hw, hws⟩ := applyWrites_cons h
    obtain ⟨row, rfl⟩ := IndexWrite.apply_eq_ok hw
    rw [ih (fun u hu => honly u (List.mem_cons_of_mem _ hu)) hws, finite_map.count_insert,
      List.map_cons]
    by_cases heq : w.key = key
    · rw [heq, ExtTreeMap.getElem?_insert_self]
      simp [hkey]
    · have hother : kind w.key ≠ true := fun hkind => heq (honly w List.mem_cons_self hkind)
      rw [finite_map.get_insert_of_ne cf row heq, if_neg (fun hand => hother hand.1), Nat.add_zero]
      simp [Ne.symm heq]

/-- The count of the rewards grows with each bump. -/
theorem applyWrites_rewards {ws : List IndexWrite} {cf cf' : IndexedTransactions}
    (hkeys : ∀ w ∈ ws, w.key = VERIFIED_PROOF_GLOBAL_REWARDS_COUNT_KEY → w = .bump_rewards)
    (h : applyWrites cf ws = .ok cf')
    (hroom : (read_verified_proof_global_rewards_count cf).toNat +
      ws.countP IndexWrite.is_reward_bump < 2 ^ 64) :
    (read_verified_proof_global_rewards_count cf').toNat =
      (read_verified_proof_global_rewards_count cf).toNat +
        ws.countP IndexWrite.is_reward_bump := by
  induction ws generalizing cf with
  | nil =>
    cases h
    rfl
  | cons w ws ih =>
    obtain ⟨cf₁, hw, hws⟩ := applyWrites_cons h
    rw [List.countP_cons] at hroom ⊢
    have hrest := fun u hu => hkeys u (List.mem_cons_of_mem w hu)
    by_cases hkey : w.key = VERIFIED_PROOF_GLOBAL_REWARDS_COUNT_KEY
    · have hbump := hkeys w List.mem_cons_self hkey
      subst hbump
      have htrue : IndexWrite.bump_rewards.is_reward_bump = true := rfl
      rw [if_pos htrue] at hroom ⊢
      cases hw
      have hone : (1 : UInt64).toNat = 1 := rfl
      have hread : (read_verified_proof_global_rewards_count
          (bump_verified_proof_global_rewards_count cf)).toNat =
          (read_verified_proof_global_rewards_count cf).toNat + 1 := by
        rw [read_verified_proof_global_rewards_count, bump_verified_proof_global_rewards_count,
          ExtTreeMap.getElem?_insert_self]
        unfold UInt64.saturating_add
        rw [UInt64.toNat_ofNat', hone, Nat.min_eq_left (by omega), Nat.mod_eq_of_lt (by omega)]
      rw [ih hrest hws (by rw [hread]; omega), hread]
      omega
    · have hnot : w.is_reward_bump = false := by
        cases w with
        | put key row => rfl
        | bump_rewards => exact absurd rfl hkey
        | bump_total => rfl
      have hread : read_verified_proof_global_rewards_count cf₁ =
          read_verified_proof_global_rewards_count cf := by
        unfold read_verified_proof_global_rewards_count
        rw [IndexWrite.get_of_ne hw hkey]
      rw [hnot, if_neg (by decide), Nat.add_zero] at hroom ⊢
      rw [ih hrest hws (by rw [hread]; exact hroom), hread]

/-! ## The writes of an attempt -/

theorem rows_keys {call : IndexCall o} {w : IndexWrite} (h : w ∈ call.rows) :
    w.key.head? ≠ some 'v' ∧ w.is_reward_bump = false := by
  unfold IndexCall.rows at h
  simp only [List.mem_cons, List.not_mem_nil, or_false] at h
  rcases h with rfl | rfl | rfl | rfl | rfl
  · exact ⟨fun heq => (by cases heq), rfl⟩
  · exact ⟨fun heq => (by cases heq), rfl⟩
  · exact ⟨fun heq => (by cases heq), rfl⟩
  · exact ⟨fun heq => (by cases heq), rfl⟩
  · exact ⟨fun heq => (by cases heq), rfl⟩

theorem puts_of_reward {call : IndexCall o} {vp_key : Text}
    (h : call.reward_key = some vp_key) :
    call.puts = call.rows ++ [.put vp_key .marker, .bump_rewards] := by
  rw [IndexCall.puts, h]

theorem puts_of_no_reward {call : IndexCall o} (h : call.reward_key = none) :
    call.puts = call.rows := by
  rw [IndexCall.puts, h, List.append_nil]

theorem reward_key_isRewardKey {call : IndexCall o} {vp_key : Text}
    (h : call.reward_key = some vp_key) : isRewardKey vp_key = true := by
  obtain ⟨provider, rfl⟩ := reward_key_form h
  unfold isRewardKey verified_proof_reward_index_key
  rw [List.append_assoc]
  exact List.isPrefixOf_iff_prefix.mpr (List.prefix_append _ _)

theorem head_of_isRewardKey {key : Text} (h : isRewardKey key = true) :
    key.head? = some 'v' := by
  unfold isRewardKey at h
  obtain ⟨rest, hrest⟩ := List.isPrefixOf_iff_prefix.mp h
  rw [← hrest]
  rfl

/-- An attempt that is not stopped at a call with a reward makes all seven writes. -/
theorem Attempt.reach_of_reward {a : Attempt o} {vp_key : Text} (hstop : a.stop = none)
    (hreward : a.call.reward_key = some vp_key) : 7 ≤ a.reach := by
  unfold Attempt.reach
  rw [hstop, puts_of_reward hreward]
  simp [IndexCall.rows]

theorem Attempt.marked_eq (a : Attempt o) :
    a.marked = if 6 ≤ a.reach then a.call.reward_key else none := by
  unfold Attempt.marked
  cases hstop : a.stop with
  | some k =>
    unfold Attempt.reach
    rw [hstop]
    rfl
  | none =>
    cases hreward : a.call.reward_key with
    | none => rw [ite_self]
    | some vp_key =>
      have hall := Attempt.reach_of_reward hstop hreward
      rw [if_pos (by omega)]

theorem Attempt.counted_eq (a : Attempt o) :
    a.counted = if 7 ≤ a.reach then a.call.reward_key else none := by
  unfold Attempt.counted
  cases hstop : a.stop with
  | some k =>
    unfold Attempt.reach
    rw [hstop]
    rfl
  | none =>
    cases hreward : a.call.reward_key with
    | none => rw [ite_self]
    | some vp_key => rw [if_pos (Attempt.reach_of_reward hstop hreward)]

/-- The keys of rewards that the first writes of a call touch. -/
theorem mem_puts_keys {call : IndexCall o} {key : Text} (hkey : isRewardKey key = true)
    (k : Nat) :
    key ∈ (call.puts.take k).map IndexWrite.key ↔
      (if 6 ≤ k then call.reward_key else none) = some key := by
  have hhead := head_of_isRewardKey hkey
  have hrows : key ∉ (call.rows.take k).map IndexWrite.key := by
    intro hmem
    obtain ⟨w, hw, rfl⟩ := List.mem_map.mp hmem
    exact (rows_keys (List.mem_of_mem_take hw)).1 hhead
  cases hreward : call.reward_key with
  | none =>
    rw [puts_of_no_reward hreward, ite_self]
    simp only [hrows, reduceCtorEq]
  | some vp_key =>
    have hcount : key ≠ VERIFIED_PROOF_GLOBAL_REWARDS_COUNT_KEY := by
      rintro rfl
      cases hhead
    have hlength : call.rows.length = 5 := rfl
    rw [puts_of_reward hreward, List.take_append, List.map_append, List.mem_append, hlength]
    simp only [hrows, false_or]
    by_cases hsix : 6 ≤ k
    · obtain ⟨n, rfl⟩ := Nat.exists_eq_add_of_le hsix
      rw [if_pos hsix, show 6 + n - 5 = n + 1 from by omega, List.take_succ_cons, List.map_cons,
        List.mem_cons, Option.some.injEq]
      constructor
      · rintro (rfl | hmem)
        · rfl
        · obtain ⟨w, hw, rfl⟩ := List.mem_map.mp hmem
          rw [List.mem_singleton.mp (List.mem_of_mem_take hw)] at hcount
          exact absurd rfl hcount
      · rintro rfl
        exact Or.inl rfl
    · rw [if_neg hsix, Nat.sub_eq_zero_of_le (by omega)]
      simp

/-- The keys of rewards that an attempt touches. -/
theorem Attempt.mem_keys {a : Attempt o} {cf : IndexedTransactions} {key : Text}
    (hkey : isRewardKey key = true) :
    key ∈ (a.writes cf).map IndexWrite.key ↔ a.marked = some key := by
  have htotal : key ≠ INDEXED_TRANSACTIONS_PRIMARY_TOTAL_COUNT_KEY := by
    rintro rfl
    cases hkey
  rw [a.writes_eq, List.map_append, List.mem_append, mem_puts_keys hkey, ← a.marked_eq]
  constructor
  · rintro (hmem | hmem)
    · exact hmem
    · obtain ⟨w, hw, rfl⟩ := List.mem_map.mp hmem
      split at hw
      · rw [List.mem_singleton.mp hw] at htotal
        exact absurd rfl htotal
      · cases hw
  · exact Or.inl

/-- The bumps of the global count that an attempt makes. -/
theorem Attempt.count_bumps (a : Attempt o) (cf : IndexedTransactions) :
    (a.writes cf).countP IndexWrite.is_reward_bump = a.counted.toList.length := by
  have hrows : (a.call.rows.take a.reach).countP IndexWrite.is_reward_bump = 0 := by
    rw [List.countP_eq_zero]
    intro w hw
    rw [(rows_keys (List.mem_of_mem_take hw)).2]
    decide
  have htail : (if cf[a.call.tx_id]? = none ∧ a.call.puts.length < a.reach then
      [IndexWrite.bump_total] else []).countP IndexWrite.is_reward_bump = 0 := by
    split
    · rfl
    · rfl
  rw [a.writes_eq, List.countP_append, htail, Nat.add_zero, a.counted_eq]
  cases hreward : a.call.reward_key with
  | none =>
    rw [puts_of_no_reward hreward, hrows, ite_self]
    rfl
  | some vp_key =>
    have hlength : a.call.rows.length = 5 := rfl
    rw [puts_of_reward hreward, List.take_append, List.countP_append, hrows, hlength,
      Nat.zero_add]
    by_cases hseven : 7 ≤ a.reach
    · rw [if_pos hseven, List.take_of_length_le (by simp; omega)]
      rfl
    · rw [if_neg hseven]
      have hle : a.reach - 5 ≤ 1 := by omega
      rw [show [IndexWrite.put vp_key .marker, .bump_rewards] =
        [IndexWrite.put vp_key .marker] ++ [.bump_rewards] from rfl,
        List.take_append_of_le_length hle]
      refine List.countP_eq_zero.mpr (fun w hw => ?_)
      rw [List.mem_singleton.mp (List.mem_of_mem_take hw)]
      exact Bool.false_ne_true

/-! ## What an attempt leaves -/

theorem attempt_ok {a : Attempt o} {cf : IndexedTransactions}
    (hroom : ∀ row, cf[INDEXED_TRANSACTIONS_PRIMARY_TOTAL_COUNT_KEY]? = some row →
      ∃ n, row = .count n ∧ n.toNat + 1 < 2 ^ 64) : ∃ cf', attempt cf a = .ok cf' := by
  obtain ⟨cf', hall⟩ : ∃ cf', index_transaction cf a.call = .ok cf' :=
    index_transaction_ok (fun _ => hroom)
  unfold attempt Attempt.writes
  cases a.stop with
  | none => exact ⟨cf', hall⟩
  | some k =>
    -- the writes before a stop are a first part of the whole call
    unfold index_transaction at hall
    rw [← List.take_append_drop k (a.call.writes cf), applyWrites_append] at hall
    cases hfirst : applyWrites cf ((a.call.writes cf).take k) with
    | error e =>
      rw [hfirst] at hall
      cases hall
    | ok cf₁ => exact ⟨cf₁, rfl⟩

variable {a : Attempt o} {cf cf' : IndexedTransactions}

theorem Attempt.id_mem_keys :
    a.call.tx_id ∈ (a.writes cf).map IndexWrite.key ↔ 0 < a.reach := by
  rw [a.writes_eq]
  constructor
  · intro hmem
    apply Nat.pos_of_ne_zero
    intro hzero
    rw [hzero, List.take_zero, if_neg (by omega)] at hmem
    cases hmem
  · intro hpos
    obtain ⟨n, hn⟩ := Nat.exists_eq_succ_of_ne_zero (Nat.pos_iff_ne_zero.mp hpos)
    rw [hn]
    exact List.mem_cons_self

theorem attempt_primary (h : attempt cf a = .ok cf') :
    primaryRows cf' = primaryRows cf +
      if cf[a.call.tx_id]? = none ∧ 0 < a.reach then 1 else 0 := by
  have honly : ∀ w ∈ a.writes cf, is_primary_key w.key = true → w.key = a.call.tx_id := by
    intro w hw hprimary
    rcases (IndexCall.write_cases (Attempt.writes_subset hw)).listed with rfl | rfl | ⟨_, hid⟩
    · rfl
    · have hnot := chron_key_not_id a.call
      have hid : isIdKey a.call.chron_key = true := isIdKey_of_primary hprimary
      rw [hid] at hnot
      cases hnot
    · rw [isIdKey_of_primary hprimary] at hid
      cases hid
  have hcount : primaryRows cf' = primaryRows cf +
      if cf[a.call.tx_id]? = none ∧ a.call.tx_id ∈ (a.writes cf).map IndexWrite.key then 1 else 0 :=
    applyWrites_count (tx_id_is_primary a.call.tx) honly h
  have hmem : a.call.tx_id ∈ (a.writes cf).map IndexWrite.key ↔ 0 < a.reach := a.id_mem_keys
  simp only [hmem] at hcount
  exact hcount

theorem attempt_rewards (h : attempt cf a = .ok cf')
    (hroom : (read_verified_proof_global_rewards_count cf).toNat + 1 < 2 ^ 64) :
    (read_verified_proof_global_rewards_count cf').toNat =
      (read_verified_proof_global_rewards_count cf).toNat + a.counted.toList.length := by
  have hlength : a.counted.toList.length ≤ 1 := by
    cases a.counted with
    | none => decide
    | some key => exact Nat.le_refl 1
  rw [← a.count_bumps cf]
  refine applyWrites_rewards (fun w hw hkey => ?_) h (by rw [a.count_bumps cf]; omega)
  rcases (IndexCall.write_cases (Attempt.writes_subset hw)).bumps (congrArg List.head? hkey)
    with rfl | rfl
  · rfl
  · exact absurd hkey (by decide)

theorem attempt_marks (h : attempt cf a = .ok cf') {key : Text} (hkey : isRewardKey key = true) :
    cf'[key]? = none ↔ cf[key]? = none ∧ a.marked ≠ some key := by
  rw [applyWrites_none_iff h, Attempt.mem_keys hkey]

theorem attempt_reward_rows_of_none (h : attempt cf a = .ok cf') (hmarked : a.marked = none) :
    rewardRows cf' = rewardRows cf := by
  have hnone : ∀ w ∈ a.writes cf, isRewardKey w.key = true → w.key = "vp:".toList := by
    intro w hw hkey
    have hmem := (Attempt.mem_keys hkey).mp (List.mem_map_of_mem hw)
    rw [hmarked] at hmem
    cases hmem
  have hlead : isRewardKey "vp:".toList = true := by decide
  have hcount := applyWrites_count hlead hnone h
  have hnot : "vp:".toList ∉ (a.writes cf).map IndexWrite.key := by
    rw [Attempt.mem_keys hlead, hmarked]
    exact fun heq => by cases heq
  rw [if_neg (fun hand => hnot hand.2)] at hcount
  exact hcount

theorem attempt_reward_rows_of_some (h : attempt cf a = .ok cf') {vp_key : Text}
    (hmarked : a.marked = some vp_key) :
    rewardRows cf' = rewardRows cf + if cf[vp_key]? = none then 1 else 0 := by
  have hreward : a.call.reward_key = some vp_key := by
    rw [a.marked_eq] at hmarked
    split at hmarked
    · exact hmarked
    · cases hmarked
  have hkey := reward_key_isRewardKey hreward
  have honly : ∀ w ∈ a.writes cf, isRewardKey w.key = true → w.key = vp_key := by
    intro w hw hkey
    have hmem := (Attempt.mem_keys hkey).mp (List.mem_map_of_mem hw)
    rw [hmarked] at hmem
    cases hmem
    rfl
  have hcount := applyWrites_count hkey honly h
  simp only [Attempt.mem_keys hkey, hmarked, and_true] at hcount
  exact hcount

/-- The bump of the total. -/
theorem bump_total_value {cf cf' : IndexedTransactions}
    (h : bump_indexed_transaction_primary_total_count cf = .ok cf') :
    primaryRows cf' = primaryRows cf ∧
    cf'[INDEXED_TRANSACTIONS_PRIMARY_TOTAL_COUNT_KEY]? =
      match cf[INDEXED_TRANSACTIONS_PRIMARY_TOTAL_COUNT_KEY]? with
      | some (.count n) => some (.count (n + 1))
      | _ => some (.count (UInt64.ofNat (primaryRows cf))) := by
  have hrows : ∀ row, primaryRows
      (cf.insert INDEXED_TRANSACTIONS_PRIMARY_TOTAL_COUNT_KEY row) = primaryRows cf := by
    intro row
    unfold primaryRows
    rw [finite_map.count_insert, if_neg (fun hand => by cases hand.1), Nat.add_zero]
  unfold bump_indexed_transaction_primary_total_count at h
  split at h
  · rename_i bytes hread
    split at h
    · cases h
    · rename_i cur hcur
      split at h
      · cases h
        cases bytes with
        | count n =>
          cases hcur
          rw [hread]
          exact ⟨hrows _, ExtTreeMap.getElem?_insert_self⟩
        | transaction _ => cases hcur
        | tx_id _ => cases hcur
        | marker => cases hcur
        | height _ => cases hcur
      · cases h
  · rename_i hread
    cases h
    rw [hread]
    exact ⟨hrows _, ExtTreeMap.getElem?_insert_self⟩

/-- The total after an attempt: bumped when the record was new and the attempt came to its
end, and as it was otherwise. -/
theorem attempt_total (h : attempt cf a = .ok cf') :
    cf'[INDEXED_TRANSACTIONS_PRIMARY_TOTAL_COUNT_KEY]? =
      if cf[a.call.tx_id]? = none ∧ a.call.puts.length < a.reach then
        (match cf[INDEXED_TRANSACTIONS_PRIMARY_TOTAL_COUNT_KEY]? with
          | some (.count n) => some (.count (n + 1))
          | _ => some (.count (UInt64.ofNat (primaryRows cf'))))
      else cf[INDEXED_TRANSACTIONS_PRIMARY_TOTAL_COUNT_KEY]? := by
  unfold attempt at h
  rw [a.writes_eq, applyWrites_append] at h
  cases hputs : applyWrites cf (a.call.puts.take a.reach) with
  | error e =>
    rw [hputs] at h
    cases h
  | ok cf₁ =>
    rw [hputs] at h
    have hread : cf₁[INDEXED_TRANSACTIONS_PRIMARY_TOTAL_COUNT_KEY]? =
        cf[INDEXED_TRANSACTIONS_PRIMARY_TOTAL_COUNT_KEY]? := by
      refine applyWrites_untouched hputs (fun w hw hkey => ?_)
      have hmem := List.mem_of_mem_take hw
      exact IndexCall.puts_total_untouched hmem hkey
    by_cases hbump : cf[a.call.tx_id]? = none ∧ a.call.puts.length < a.reach
    · rw [if_pos hbump] at h ⊢
      obtain ⟨cf₂, hw, hnil⟩ := applyWrites_cons h
      cases hnil
      obtain ⟨hrows, hvalue⟩ := bump_total_value hw
      rw [hvalue, hread, hrows]
    · rw [if_neg hbump] at h ⊢
      cases h
      exact hread

/-! ## Runs -/

/-- What the API reads is what is there. -/
structure CountersExact (cf : IndexedTransactions) : Prop where
  total : ∃ n cf', indexed_transaction_primary_total_count cf = .ok (n, cf') ∧
    n.toNat = primaryRows cf
  rewards : (read_verified_proof_global_rewards_count cf).toNat = rewardRows cf

/-- The attempt stores a new record and stops before it bumps a total that is there. -/
def Attempt.LosesCount (a : Attempt o) (cf : IndexedTransactions) : Prop :=
  cf[INDEXED_TRANSACTIONS_PRIMARY_TOTAL_COUNT_KEY]?.isSome = true ∧
  cf[a.call.tx_id]? = none ∧ ∃ k, a.stop = some k ∧ 0 < k ∧ k < (a.call.writes cf).length

theorem Attempt.losesCount_iff (a : Attempt o) (cf : IndexedTransactions) :
    a.LosesCount cf ↔
      cf[INDEXED_TRANSACTIONS_PRIMARY_TOTAL_COUNT_KEY]?.isSome = true ∧
      cf[a.call.tx_id]? = none ∧ 0 < a.reach ∧ ¬ a.call.puts.length < a.reach := by
  unfold Attempt.LosesCount
  refine and_congr_right (fun _ => and_congr_right (fun hfresh => ?_))
  have hlength : (a.call.writes cf).length = a.call.puts.length + 1 := by
    rw [a.call.writes_eq, hfresh, if_neg (by decide), List.length_append, List.length_singleton]
  rw [hlength, Attempt.reach]
  cases a.stop with
  | none =>
    refine iff_of_false ?_ (fun hand => hand.2 (Nat.lt_succ_self _))
    rintro ⟨k, hk, _⟩
    cases hk
  | some k =>
    constructor
    · rintro ⟨k', hk, hpos, hlt⟩
      cases hk
      exact ⟨hpos, by rw [Option.getD_some]; omega⟩
    · rintro ⟨hpos, hle⟩
      rw [Option.getD_some] at hpos hle
      exact ⟨k, rfl, hpos, by omega⟩

/-- No attempt of a run loses a count. -/
def CountsKept (run : List (Attempt o)) : Prop :=
  ∀ before a after cf, run = before ++ a :: after → attempt_all ∅ before = .ok cf →
    ¬ a.LosesCount cf

/-- Each attempt that stopped is tried again to its end, with the same transaction at the same
position. -/
def StopsRetried (run : List (Attempt o)) : Prop :=
  ∀ before a after, run = before ++ a :: after → a.stop.isSome = true →
    ∃ b ∈ after, b.stop = none ∧ b.call.tx = a.call.tx ∧ b.call.status = a.call.status ∧
      b.call.block_height = a.call.block_height ∧ b.call.block_index = a.call.block_index

/-- No reward is counted twice. -/
def RewardsCountedOnce (run : List (Attempt o)) : Prop := (run.filterMap Attempt.counted).Nodup

theorem attempt_all_snoc (cf : IndexedTransactions) (run : List (Attempt o)) (a : Attempt o) :
    attempt_all cf (run ++ [a]) = (attempt_all cf run).bind (fun cf₁ => attempt cf₁ a) := by
  unfold attempt_all
  rw [List.foldlM_append]
  congr 1
  funext cf₁
  show (attempt cf₁ a >>= pure) = _
  cases attempt cf₁ a with
  | error e => rfl
  | ok cf₂ => rfl

theorem countsKept_snoc {run : List (Attempt o)} {a : Attempt o} {cf : IndexedTransactions}
    (hcf : attempt_all ∅ run = .ok cf) :
    CountsKept (run ++ [a]) ↔ CountsKept run ∧ ¬ a.LosesCount cf := by
  constructor
  · intro h
    refine ⟨fun before b after cf₁ hrun hbefore => ?_, h run a [] cf rfl hcf⟩
    exact h before b (after ++ [a]) cf₁ (by rw [hrun]; simp) hbefore
  · rintro ⟨h, hlast⟩ before b after cf₁ hrun hbefore
    rcases List.eq_nil_or_concat after with rfl | ⟨rest, last, rfl⟩
    · obtain ⟨rfl, hb⟩ := List.append_inj' hrun rfl
      cases hb
      rw [hcf] at hbefore
      cases hbefore
      exact hlast
    · have hsplit : run ++ [a] = (before ++ b :: rest) ++ [last] := by
        rw [hrun, List.concat_eq_append]
        simp
      obtain ⟨hrun', _⟩ := List.append_inj' hsplit rfl
      exact h before b rest cf₁ hrun' hbefore

/-- What a run leaves. -/
structure RunState (run : List (Attempt o)) (cf : IndexedTransactions) : Prop where
  rows_le : primaryRows cf ≤ run.length
  total : (cf[INDEXED_TRANSACTIONS_PRIMARY_TOTAL_COUNT_KEY]? = none ∧ CountsKept run) ∨
    ∃ n, cf[INDEXED_TRANSACTIONS_PRIMARY_TOTAL_COUNT_KEY]? = some (.count n) ∧
      n.toNat ≤ primaryRows cf ∧ (n.toNat = primaryRows cf ↔ CountsKept run)
  rewards : (read_verified_proof_global_rewards_count cf).toNat =
    (run.filterMap Attempt.counted).length
  reward_rows : rewardRows cf = (run.filterMap Attempt.marked).toFinset.card
  marks : ∀ key, isRewardKey key = true →
    (cf[key]? = none ↔ key ∉ run.filterMap Attempt.marked)

theorem runState_nil : RunState ([] : List (Attempt o)) ∅ where
  rows_le := Nat.le_refl 0
  total := Or.inl ⟨rfl, fun before a after _ hrun => by cases before <;> cases hrun⟩
  rewards := rfl
  reward_rows := rfl
  marks := fun _ _ => iff_of_true rfl List.not_mem_nil

/-- The total after one more attempt. -/
theorem RunState.snoc_total {run : List (Attempt o)} {a : Attempt o}
    {cf cf' : IndexedTransactions} (h : RunState run cf) (hcf : attempt_all ∅ run = .ok cf)
    (hcf' : attempt cf a = .ok cf') (hlength : run.length + 1 < 2 ^ 64) :
    (cf'[INDEXED_TRANSACTIONS_PRIMARY_TOTAL_COUNT_KEY]? = none ∧ CountsKept (run ++ [a])) ∨
    ∃ n, cf'[INDEXED_TRANSACTIONS_PRIMARY_TOTAL_COUNT_KEY]? = some (.count n) ∧
      n.toNat ≤ primaryRows cf' ∧ (n.toNat = primaryRows cf' ↔ CountsKept (run ++ [a])) := by
  have hrows := attempt_primary hcf'
  have htotal := attempt_total hcf'
  have hloses := a.losesCount_iff cf
  have hle := h.rows_le
  rw [countsKept_snoc hcf]
  rcases h.total with ⟨hnone, hkept⟩ | ⟨n, hsome, hn_le, hn_iff⟩
  · have hkeeps : ¬ a.LosesCount cf := by
      rw [hloses, hnone]
      exact fun hand => by cases hand.1
    rw [hnone] at htotal
    by_cases hbump : cf[a.call.tx_id]? = none ∧ a.call.puts.length < a.reach
    · -- the first bump counts the rows
      rw [if_pos hbump] at htotal
      have hvalue : (UInt64.ofNat (primaryRows cf')).toNat = primaryRows cf' := by
        rw [UInt64.toNat_ofNat', Nat.mod_eq_of_lt]
        rw [hrows]
        split <;> omega
      exact Or.inr ⟨_, htotal, Nat.le_of_eq hvalue, iff_of_true hvalue ⟨hkept, hkeeps⟩⟩
    · rw [if_neg hbump] at htotal
      exact Or.inl ⟨htotal, hkept, hkeeps⟩
  · rw [hsome] at htotal hloses
    refine Or.inr ?_
    by_cases hbump : cf[a.call.tx_id]? = none ∧ a.call.puts.length < a.reach
    · -- a new record, and its bump
      have hone : (1 : UInt64).toNat = 1 := rfl
      have hsucc : (n + 1).toNat = n.toNat + 1 := by
        rw [UInt64.toNat_add, hone, Nat.mod_eq_of_lt (by omega)]
      have hkeeps : ¬ a.LosesCount cf := fun hand => (hloses.mp hand).2.2.2 hbump.2
      rw [if_pos hbump] at htotal
      rw [if_pos ⟨hbump.1, by omega⟩] at hrows
      refine ⟨n + 1, htotal, by omega, ?_⟩
      rw [hsucc, hrows, Nat.add_right_cancel_iff, hn_iff]
      exact (and_iff_left hkeeps).symm
    · rw [if_neg hbump] at htotal
      refine ⟨n, htotal, by omega, ?_⟩
      by_cases hnew : cf[a.call.tx_id]? = none ∧ 0 < a.reach
      · -- a new record whose bump is lost
        have hlost : a.LosesCount cf :=
          hloses.mpr ⟨rfl, hnew.1, hnew.2, fun hlt => hbump ⟨hnew.1, hlt⟩⟩
        rw [if_pos hnew] at hrows
        exact iff_of_false (by omega) (fun hand => hand.2 hlost)
      · have hkeeps : ¬ a.LosesCount cf := by
          rw [hloses]
          exact fun hand => hnew ⟨hand.2.1, hand.2.2.1⟩
        rw [if_neg hnew, Nat.add_zero] at hrows
        rw [hrows, hn_iff]
        exact (and_iff_left hkeeps).symm

/-- The rows of rewards after one more attempt. -/
theorem RunState.snoc_reward_rows {run : List (Attempt o)} {a : Attempt o}
    {cf cf' : IndexedTransactions} (h : RunState run cf) (hcf' : attempt cf a = .ok cf') :
    rewardRows cf' = ((run ++ [a]).filterMap Attempt.marked).toFinset.card := by
  rw [List.filterMap_append, List.toFinset_append]
  cases hmarked : a.marked with
  | none =>
    have hnil : [a].filterMap Attempt.marked = [] := by simp [hmarked]
    rw [attempt_reward_rows_of_none hcf' hmarked, h.reward_rows, hnil, List.toFinset_nil,
      Finset.union_empty]
  | some vp_key =>
    have hsingle : [a].filterMap Attempt.marked = [vp_key] := by simp [hmarked]
    have hkey : isRewardKey vp_key = true := by
      rw [a.marked_eq] at hmarked
      split at hmarked
      · exact reward_key_isRewardKey hmarked
      · cases hmarked
    rw [attempt_reward_rows_of_some hcf' hmarked, h.reward_rows, hsingle, List.toFinset_cons,
      List.toFinset_nil, Finset.union_comm, Finset.insert_union, Finset.empty_union]
    by_cases hmem : vp_key ∈ run.filterMap Attempt.marked
    · rw [if_neg (fun hnone => (h.marks vp_key hkey).mp hnone hmem), Nat.add_zero,
        Finset.insert_eq_of_mem (List.mem_toFinset.mpr hmem)]
    · rw [if_pos ((h.marks vp_key hkey).mpr hmem),
        Finset.card_insert_of_notMem (fun hin => hmem (List.mem_toFinset.mp hin))]

theorem RunState.snoc {run : List (Attempt o)} {a : Attempt o} {cf : IndexedTransactions}
    (h : RunState run cf) (hcf : attempt_all ∅ run = .ok cf)
    (hlength : (run ++ [a]).length < 2 ^ 64) :
    ∃ cf', attempt_all ∅ (run ++ [a]) = .ok cf' ∧ RunState (run ++ [a]) cf' := by
  rw [List.length_append, List.length_singleton] at hlength
  have hrows_le := h.rows_le
  have hcounted_le : (run.filterMap Attempt.counted).length ≤ run.length :=
    List.length_filterMap_le _ _
  obtain ⟨cf', hcf'⟩ : ∃ cf', attempt cf a = .ok cf' := by
    apply attempt_ok
    intro row hrow
    rcases h.total with ⟨hnone, _⟩ | ⟨n, hsome, hle, _⟩
    · rw [hnone] at hrow
      cases hrow
    · rw [hsome] at hrow
      cases hrow
      exact ⟨n, rfl, by omega⟩
  refine ⟨cf', by rw [attempt_all_snoc, hcf]; exact hcf', ?_, ?_, ?_, ?_, ?_⟩
  · rw [attempt_primary hcf', List.length_append, List.length_singleton]
    split <;> omega
  · exact h.snoc_total hcf hcf' hlength
  · rw [attempt_rewards hcf' (by rw [h.rewards]; omega), h.rewards, List.filterMap_append,
      List.length_append]
    cases hcounted : a.counted <;> simp [hcounted]
  · exact h.snoc_reward_rows hcf'
  · intro key hkey
    rw [attempt_marks hcf' hkey, h.marks key hkey, List.filterMap_append, List.mem_append,
      not_or]
    cases hmarked : a.marked <;> simp [hmarked, eq_comm]

/-- A run that is short enough for its counters succeeds, and leaves such a state. -/
theorem runState_of_run {run : List (Attempt o)} (hlength : run.length < 2 ^ 64) :
    ∃ cf, attempt_all ∅ run = .ok cf ∧ RunState run cf := by
  induction run using List.reverseRecOn with
  | nil => exact ⟨∅, rfl, runState_nil⟩
  | append_singleton run a ih =>
    have hshorter : run.length < 2 ^ 64 := by
      rw [List.length_append, List.length_singleton] at hlength
      omega
    obtain ⟨cf, hcf, hstate⟩ := ih hshorter
    exact hstate.snoc hcf hlength

/-- In a run whose stops are retried the rewards with a row are those that were counted. -/
theorem marked_eq_counted {run : List (Attempt o)} (h : StopsRetried run) :
    (run.filterMap Attempt.marked).toFinset = (run.filterMap Attempt.counted).toFinset := by
  ext key
  rw [List.mem_toFinset, List.mem_toFinset, List.mem_filterMap, List.mem_filterMap]
  constructor
  · rintro ⟨a, ha, hmarked⟩
    cases hstop : a.stop with
    | none =>
      refine ⟨a, ha, ?_⟩
      unfold Attempt.marked at hmarked
      unfold Attempt.counted
      rw [hstop] at hmarked ⊢
      exact hmarked
    | some k =>
      -- the attempt that settles it counts the same reward
      obtain ⟨before, after, hrun⟩ := List.append_of_mem ha
      obtain ⟨b, hb, hdone, htx, hstatus, hheight, hindex⟩ :=
        h before a after hrun (by rw [hstop]; rfl)
      have hreward : b.call.reward_key = a.call.reward_key := by
        unfold IndexCall.reward_key
        rw [htx, hstatus, hheight, hindex]
      refine ⟨b, by rw [hrun]; simp [hb], ?_⟩
      rw [a.marked_eq] at hmarked
      unfold Attempt.counted
      rw [hdone]
      split at hmarked
      · exact hreward.trans hmarked
      · cases hmarked
  · rintro ⟨a, ha, hcounted⟩
    refine ⟨a, ha, ?_⟩
    rw [a.counted_eq] at hcounted
    rw [a.marked_eq]
    split at hcounted
    · rw [if_pos (by omega)]
      exact hcounted
    · cases hcounted

/-- The API's total is the number of rows when no count was lost, and only then. -/
theorem RunState.total_iff {run : List (Attempt o)} {cf : IndexedTransactions}
    (h : RunState run cf) (hlength : run.length < 2 ^ 64) :
    (∃ n cf', indexed_transaction_primary_total_count cf = .ok (n, cf') ∧
      n.toNat = primaryRows cf) ↔ CountsKept run := by
  have hle := h.rows_le
  unfold indexed_transaction_primary_total_count
  rcases h.total with ⟨hnone, hkept⟩ | ⟨n, hsome, _, hiff⟩
  · rw [hnone]
    refine iff_of_true ⟨_, _, rfl, ?_⟩ hkept
    show (UInt64.ofNat (primaryRows cf)).toNat = primaryRows cf
    rw [UInt64.toNat_ofNat', Nat.mod_eq_of_lt (by omega)]
  · rw [hsome, ← hiff]
    constructor
    · rintro ⟨n', cf', hread, heq⟩
      cases hread
      exact heq
    · intro heq
      exact ⟨n, cf, rfl, heq⟩

/-- The global count is the number of reward rows when no reward was counted twice, and only
then. -/
theorem RunState.rewards_iff {run : List (Attempt o)} {cf : IndexedTransactions}
    (h : RunState run cf) (hretried : StopsRetried run) :
    (read_verified_proof_global_rewards_count cf).toNat = rewardRows cf ↔ RewardsCountedOnce run := by
  rw [h.rewards, h.reward_rows, marked_eq_counted hretried, eq_comm]
  exact Multiset.toFinset_card_eq_card_iff_nodup

/-- The counters are exact after a run whose stops are retried when no attempt lost a count and
no reward was counted twice, and only then. -/
theorem counters_exact_iff (run : List (Attempt o)) (hlength : run.length < 2 ^ 64)
    (hretried : StopsRetried run) :
    ∃ cf, attempt_all ∅ run = .ok cf ∧
      (CountersExact cf ↔ CountsKept run ∧ RewardsCountedOnce run) := by
  obtain ⟨cf, hcf, hstate⟩ := runState_of_run hlength
  have hrewards := hstate.rewards_iff hretried
  refine ⟨cf, hcf, ?_⟩
  constructor
  · intro hexact
    exact ⟨(hstate.total_iff hlength).mp hexact.total, hrewards.mp hexact.rewards⟩
  · rintro ⟨hkept, honce⟩
    exact ⟨(hstate.total_iff hlength).mpr hkept, hrewards.mpr honce⟩

/-! ## Two runs -/

theorem rewardedChallenge_safe :
    validate_verified_proof_challenge_id (aliceChallenge (smallHeight 2)).to_hex = .ok () :=
  hex_id_safe 64 _ id_length

theorem aliceAnswer_readable : (answer 2 (aliceChallenge (smallHeight 2)).to_hex
    rewardedChallenge_safe (smallHeight 2) smallHeight_two_pos true).Readable Outside.toy :=
  Tx.Wired.readable (signed_wired 1 2 _ _)

/-- Alice's rewarded answer, as it is indexed from block 2. -/
def aliceRewarded : IndexCall Outside.toy where
  tx := answer 2 (aliceChallenge (smallHeight 2)).to_hex rewardedChallenge_safe (smallHeight 2)
    smallHeight_two_pos true
  block_height := 2
  block_index := 0
  status := .Success
  gas_used := none
  events := []
  timestamp := 0
  readable := aliceAnswer_readable

theorem aliceRewarded_key : aliceRewarded.reward_key =
    some (verified_proof_reward_index_key alice 2 0) := rfl

/-- The first attempt stops after three writes, and the block is tried again. -/
def retriedOnce : List (Attempt Outside.toy) := [⟨aliceRewarded, some 3⟩, ⟨aliceRewarded, none⟩]

theorem counters_exact_on_retriedOnce :
    ∃ cf, attempt_all ∅ retriedOnce = .ok cf ∧ CountersExact cf := by
  have hretried : StopsRetried retriedOnce := by
    intro before a after hrun hstop
    cases before with
    | nil =>
      obtain ⟨rfl, rfl⟩ := List.cons.inj hrun
      exact ⟨⟨aliceRewarded, none⟩, List.mem_singleton_self _, rfl, rfl, rfl, rfl, rfl⟩
    | cons first rest =>
      have hmem : a ∈ [(⟨aliceRewarded, none⟩ : Attempt Outside.toy)] := by
        rw [(List.cons.inj hrun).2]
        simp
      rw [List.mem_singleton.mp hmem] at hstop
      cases hstop
  obtain ⟨cf, hcf, hiff⟩ := counters_exact_iff retriedOnce (by decide) hretried
  refine ⟨cf, hcf, hiff.mpr ⟨?_, ?_⟩⟩
  · have hnil : attempt_all ∅ ([] : List (Attempt Outside.toy)) = .ok ∅ := rfl
    have hempty : CountsKept ([] : List (Attempt Outside.toy)) := by
      intro before a after cf' hrun
      cases before <;> cases hrun
    have hstopped : CountsKept ([] ++ [⟨aliceRewarded, some 3⟩]) := by
      refine (countsKept_snoc hnil).mpr ⟨hempty, ?_⟩
      rintro ⟨htotal, _⟩
      cases htotal
    have hlength : ([] ++ [(⟨aliceRewarded, some 3⟩ : Attempt Outside.toy)]).length < 2 ^ 64 := by
      rw [List.nil_append, List.length_singleton]
      decide
    obtain ⟨cf₁, hcf₁, _⟩ := runState_of_run hlength
    refine (countsKept_snoc hcf₁).mpr ⟨hstopped, ?_⟩
    rintro ⟨_, _, k, hk, _⟩
    cases hk
  · have hcounted : retriedOnce.filterMap Attempt.counted =
        [verified_proof_reward_index_key alice 2 0] := by
      simp [retriedOnce, Attempt.counted, aliceRewarded_key]
    rw [RewardsCountedOnce, hcounted]
    exact List.nodup_singleton _

/-- The block is tried again after its first transaction was indexed, because another one
failed. -/
def repeatedCall : List (Attempt Outside.toy) := [⟨aliceRewarded, none⟩, ⟨aliceRewarded, none⟩]

theorem repeatedCall_counts_twice :
    StopsRetried repeatedCall ∧ ∃ cf, attempt_all ∅ repeatedCall = .ok cf ∧ ¬ CountersExact cf := by
  have hretried : StopsRetried repeatedCall := by
    intro before a after hrun hstop
    have hmem : a ∈ repeatedCall := by rw [hrun]; simp
    simp only [repeatedCall, List.mem_cons, List.not_mem_nil, or_false, or_self] at hmem
    rw [hmem] at hstop
    cases hstop
  obtain ⟨cf, hcf, hstate⟩ : ∃ cf, attempt_all ∅ repeatedCall = .ok cf ∧ RunState repeatedCall cf :=
    runState_of_run (by decide)
  refine ⟨hretried, cf, hcf, fun hexact => ?_⟩
  have honce := (hstate.rewards_iff hretried).mp hexact.rewards
  have hcounted : repeatedCall.filterMap Attempt.counted =
      [verified_proof_reward_index_key alice 2 0, verified_proof_reward_index_key alice 2 0] := by
    simp [repeatedCall, Attempt.counted, aliceRewarded_key]
  rw [RewardsCountedOnce, hcounted, List.nodup_cons] at honce
  exact honce.1 (List.mem_singleton_self _)

end eld_chain
