-- What calls of `index_transaction` leave for a listing: the last call at
-- a position decides the id of its row, and the last call with an id
-- decides the record. Every other row is of another kind.
import EldChain.IndexKeys
import EldChain.Library.FiniteMaps
import Mathlib.Data.List.Induction

open Std

namespace eld_chain

variable {o : Outside}

/-! ## Writes -/

def IndexWrite.key : IndexWrite → Text
  | .put key _ => key
  | .bump_rewards => VERIFIED_PROOF_GLOBAL_REWARDS_COUNT_KEY
  | .bump_total => INDEXED_TRANSACTIONS_PRIMARY_TOTAL_COUNT_KEY

theorem bump_total_eq_ok {cf cf' : IndexedTransactions}
    (h : bump_indexed_transaction_primary_total_count cf = .ok cf') :
    ∃ n, cf' = cf.insert INDEXED_TRANSACTIONS_PRIMARY_TOTAL_COUNT_KEY (.count n) := by
  unfold bump_indexed_transaction_primary_total_count at h
  split at h
  · split at h
    · cases h
    · split at h
      · cases h
        exact ⟨_, rfl⟩
      · cases h
  · cases h
    exact ⟨_, rfl⟩

/-- A write puts one row at its key. -/
theorem IndexWrite.apply_eq_ok {cf cf' : IndexedTransactions} {w : IndexWrite}
    (h : w.apply cf = .ok cf') : ∃ row, cf' = cf.insert w.key row := by
  cases w with
  | put k row =>
    cases h
    exact ⟨row, rfl⟩
  | bump_rewards =>
    cases h
    exact ⟨_, rfl⟩
  | bump_total =>
    obtain ⟨n, rfl⟩ := bump_total_eq_ok h
    exact ⟨_, rfl⟩

theorem IndexWrite.get_of_ne {cf cf' : IndexedTransactions} {w : IndexWrite} {key : Text}
    (h : w.apply cf = .ok cf') (hkey : w.key ≠ key) : cf'[key]? = cf[key]? := by
  obtain ⟨row, rfl⟩ := IndexWrite.apply_eq_ok h
  exact finite_map.get_insert_of_ne cf row hkey

theorem applyWrites_cons {cf cf' : IndexedTransactions} {w : IndexWrite} {ws : List IndexWrite}
    (h : applyWrites cf (w :: ws) = .ok cf') :
    ∃ cf₁, w.apply cf = .ok cf₁ ∧ applyWrites cf₁ ws = .ok cf' := by
  unfold applyWrites at h ⊢
  rw [List.foldlM_cons] at h
  cases hw : w.apply cf with
  | error e =>
    rw [hw] at h
    cases h
  | ok cf₁ =>
    rw [hw] at h
    exact ⟨cf₁, rfl, h⟩

theorem applyWrites_untouched {ws : List IndexWrite} {cf cf' : IndexedTransactions} {key : Text}
    (h : applyWrites cf ws = .ok cf') (hkey : ∀ w ∈ ws, w.key ≠ key) :
    cf'[key]? = cf[key]? := by
  induction ws generalizing cf with
  | nil =>
    cases h
    rfl
  | cons w ws ih =>
    obtain ⟨cf₁, hw, hws⟩ := applyWrites_cons h
    rw [ih hws (fun u hu => hkey u (List.mem_cons_of_mem _ hu)),
      IndexWrite.get_of_ne hw (hkey w List.mem_cons_self)]

/-- A key that only one row is put at ends with that row. -/
theorem applyWrites_put {ws : List IndexWrite} {cf cf' : IndexedTransactions} {key : Text}
    {row : IndexRow} (h : applyWrites cf ws = .ok cf') (hput : .put key row ∈ ws)
    (honly : ∀ w ∈ ws, w.key = key → w = .put key row) : cf'[key]? = some row := by
  induction ws generalizing cf with
  | nil => cases hput
  | cons w ws ih =>
    obtain ⟨cf₁, hw, hws⟩ := applyWrites_cons h
    have hlater := fun u hu => honly u (List.mem_cons_of_mem _ hu)
    by_cases hagain : IndexWrite.put key row ∈ ws
    · exact ih hws hagain hlater
    · -- the first write puts the row, and no later one touches its key
      have hfirst : w = .put key row := by
        rcases List.mem_cons.mp hput with heq | hmem
        · exact heq.symm
        · exact absurd hmem hagain
      subst hfirst
      cases hw
      rw [applyWrites_untouched hws]
      · exact ExtTreeMap.getElem?_insert_self
      · intro u hu hkey
        exact hagain (hlater u hu hkey ▸ hu)

theorem applyWrites_append (cf : IndexedTransactions) (ws later : List IndexWrite) :
    applyWrites cf (ws ++ later) = (applyWrites cf ws).bind (fun cf₁ => applyWrites cf₁ later) :=
  List.foldlM_append

/-- Only the bump of the total can fail. -/
theorem applyWrites_ok {ws : List IndexWrite} (h : ∀ w ∈ ws, w ≠ .bump_total)
    (cf : IndexedTransactions) : ∃ cf', applyWrites cf ws = .ok cf' := by
  induction ws generalizing cf with
  | nil => exact ⟨cf, rfl⟩
  | cons w ws ih =>
    have hrest := ih (fun u hu => h u (List.mem_cons_of_mem _ hu))
    cases w with
    | put key row => exact hrest (cf.insert key row)
    | bump_rewards => exact hrest (bump_verified_proof_global_rewards_count cf)
    | bump_total => exact absurd rfl (h _ List.mem_cons_self)

/-- What every write keeps, the writes together keep. -/
theorem applyWrites_keeps {P : IndexedTransactions → Prop} {ws : List IndexWrite}
    {cf cf' : IndexedTransactions}
    (hstep : ∀ w ∈ ws, ∀ cf₁ cf₂, P cf₁ → w.apply cf₁ = .ok cf₂ → P cf₂) (hcf : P cf)
    (h : applyWrites cf ws = .ok cf') : P cf' := by
  induction ws generalizing cf with
  | nil =>
    cases h
    exact hcf
  | cons w ws ih =>
    obtain ⟨cf₁, hw, hws⟩ := applyWrites_cons h
    exact ih (fun u hu => hstep u (List.mem_cons_of_mem _ hu))
      (hstep w List.mem_cons_self cf cf₁ hcf hw) hws

/-! ## The writes of one call -/

/-- The key of a call's position. -/
def IndexCall.chron_key (call : IndexCall o) : Text :=
  block_position_chron_index_key call.block_height call.block_index

/-- A write of a call: its record, its position, a row of another index, a reward and its
count, or the count of a new record. -/
inductive CallWrite (call : IndexCall o) (cf : IndexedTransactions) : IndexWrite → Prop
  | record : CallWrite call cf (.put call.tx_id (.transaction call.indexed_tx.to_vec))
  | position : CallWrite call cf (.put call.chron_key (.tx_id call.tx_id))
  | other {key : Text} (kind : key.head? = some 'b' ∨ key.head? = some 's' ∨ key.head? = some 't')
      (apart : isChronKey key = false) : CallWrite call cf (.put key (.tx_id call.tx_id))
  | reward {vp_key : Text} (rewarded : call.reward_key = some vp_key) :
      CallWrite call cf (.put vp_key .marker)
  | counted {vp_key : Text} (rewarded : call.reward_key = some vp_key) :
      CallWrite call cf .bump_rewards
  | total (fresh : cf[call.tx_id]? = none) : CallWrite call cf .bump_total

theorem IndexCall.write_cases {call : IndexCall o} {cf : IndexedTransactions} {w : IndexWrite}
    (h : w ∈ call.writes cf) : CallWrite call cf w := by
  unfold IndexCall.writes at h
  simp only [List.mem_append, List.mem_cons, List.not_mem_nil, or_false] at h
  rcases h with ((rfl | rfl | rfl | rfl | rfl) | h) | h
  · exact .record
  · exact .other (Or.inl rfl) rfl
  · exact .position
  · exact .other (Or.inr (Or.inl rfl)) rfl
  · exact .other (Or.inr (Or.inr rfl)) rfl
  · cases hreward : call.reward_key with
    | none =>
      rw [hreward] at h
      cases h
    | some vp_key =>
      rw [hreward] at h
      rcases List.mem_cons.mp h with rfl | h
      · exact .reward hreward
      · rw [List.mem_singleton.mp h]
        exact .counted hreward
  · by_cases hpresent : cf[call.tx_id]?.isSome = true
    · rw [if_pos hpresent] at h
      cases h
    · rw [if_neg hpresent] at h
      rw [List.mem_singleton.mp h]
      exact .total (Option.not_isSome_iff_eq_none.mp hpresent)

/-- Only the two rows of a call are of the kinds that a listing reads. -/
theorem CallWrite.listed {call : IndexCall o} {cf : IndexedTransactions} {w : IndexWrite}
    (h : CallWrite call cf w) :
    w = .put call.tx_id (.transaction call.indexed_tx.to_vec) ∨
    w = .put call.chron_key (.tx_id call.tx_id) ∨
    (isChronKey w.key = false ∧ isIdKey w.key = false) := by
  cases h with
  | record => exact Or.inl rfl
  | position => exact Or.inr (Or.inl rfl)
  | other kind apart =>
    refine Or.inr (Or.inr ⟨apart, ?_⟩)
    unfold isIdKey IndexWrite.key
    rcases kind with hb | hs | ht
    · rw [hb]
      rfl
    · rw [hs]
      rfl
    · rw [ht]
      rfl
  | reward rewarded =>
    obtain ⟨provider, rfl⟩ := reward_key_form rewarded
    exact Or.inr (Or.inr ⟨rfl, rfl⟩)
  | counted => exact Or.inr (Or.inr ⟨rfl, rfl⟩)
  | total => exact Or.inr (Or.inr ⟨rfl, rfl⟩)

/-- The key of a write of a call leads with an underscore only where a count is bumped. -/
theorem CallWrite.bumps {call : IndexCall o} {cf : IndexedTransactions} {w : IndexWrite}
    (h : CallWrite call cf w) (hkey : w.key.head? = some '_') :
    w = .bump_rewards ∨ w = .bump_total := by
  cases h with
  | record =>
    have hhead : call.tx_id.head? = some '0' := rfl
    rw [IndexWrite.key, hhead] at hkey
    cases hkey
  | position =>
    have hhead : call.chron_key.head? = some 'b' := rfl
    rw [IndexWrite.key, hhead] at hkey
    cases hkey
  | other kind apart =>
    rw [IndexWrite.key] at hkey
    rw [hkey] at kind
    rcases kind with hb | hs | ht
    · cases hb
    · cases hs
    · cases ht
  | reward rewarded =>
    obtain ⟨provider, rfl⟩ := reward_key_form rewarded
    have hhead : (verified_proof_reward_index_key provider call.block_height
        call.block_index).head? = some 'v' := rfl
    rw [IndexWrite.key, hhead] at hkey
    cases hkey
  | counted => exact Or.inl rfl
  | total => exact Or.inr rfl

theorem IndexCall.put_record_mem (call : IndexCall o) (cf : IndexedTransactions) :
    .put call.tx_id (.transaction call.indexed_tx.to_vec) ∈ call.writes cf := by
  simp [IndexCall.writes]

theorem IndexCall.put_position_mem (call : IndexCall o) (cf : IndexedTransactions) :
    .put call.chron_key (.tx_id call.tx_id) ∈ call.writes cf := by
  simp [IndexCall.writes, IndexCall.chron_key]

theorem chron_key_not_id (call : IndexCall o) : isIdKey call.chron_key = false := rfl

theorem tx_id_not_chron (call : IndexCall o) : isChronKey call.tx_id = false := rfl

/-- What a finished call leaves: its row at its position, its record at its id, and every
other row of these kinds as it was. -/
structure AfterCall (call : IndexCall o) (cf cf' : IndexedTransactions) : Prop where
  position : cf'[call.chron_key]? = some (.tx_id call.tx_id)
  record : cf'[call.tx_id]? = some (.transaction call.indexed_tx.to_vec)
  other_positions : ∀ key, isChronKey key = true → key ≠ call.chron_key → cf'[key]? = cf[key]?
  other_records : ∀ key, isIdKey key = true → key ≠ call.tx_id → cf'[key]? = cf[key]?

theorem index_transaction.spec {call : IndexCall o} {cf cf' : IndexedTransactions}
    (h : index_transaction cf call = .ok cf') : AfterCall call cf cf' := by
  unfold index_transaction at h
  refine ⟨?_, ?_, fun key hchron hne => ?_, fun key hid hne => ?_⟩
  · refine applyWrites_put h (call.put_position_mem cf) (fun w hw hkey => ?_)
    rcases (IndexCall.write_cases hw).listed with rfl | rfl | ⟨hchron, _⟩
    · have hnot := tx_id_not_chron call
      rw [show call.tx_id = call.chron_key from hkey] at hnot
      rw [IndexCall.chron_key, chron_index_key_leads] at hnot
      cases hnot
    · rfl
    · rw [hkey, IndexCall.chron_key, chron_index_key_leads] at hchron
      cases hchron
  · refine applyWrites_put h (call.put_record_mem cf) (fun w hw hkey => ?_)
    rcases (IndexCall.write_cases hw).listed with rfl | rfl | ⟨_, hid⟩
    · rfl
    · have hnot := chron_key_not_id call
      rw [show call.chron_key = call.tx_id from hkey] at hnot
      cases hnot
    · rw [hkey] at hid
      cases hid
  · refine applyWrites_untouched h (fun w hw hkey => ?_)
    rcases (IndexCall.write_cases hw).listed with rfl | rfl | ⟨hother, _⟩
    · have heq : call.tx_id = key := hkey
      have hid : isChronKey call.tx_id = true := by rw [heq]; exact hchron
      rw [tx_id_not_chron] at hid
      cases hid
    · exact hne hkey.symm
    · rw [hkey, hchron] at hother
      cases hother
  · refine applyWrites_untouched h (fun w hw hkey => ?_)
    rcases (IndexCall.write_cases hw).listed with rfl | rfl | ⟨_, hother⟩
    · exact hne hkey.symm
    · have heq : call.chron_key = key := hkey
      have hposition : isIdKey call.chron_key = true := by rw [heq]; exact hid
      rw [chron_key_not_id] at hposition
      cases hposition
    · rw [hkey, hid] at hother
      cases hother

/-- The five rows that every call puts. -/
def IndexCall.rows (call : IndexCall o) : List IndexWrite :=
  [.put call.tx_id (.transaction call.indexed_tx.to_vec),
    .put (block_height_index_key call.block_height call.block_index) (.tx_id call.tx_id),
    .put call.chron_key (.tx_id call.tx_id),
    .put (sender_index_key call.tx.payload.inner.sender call.tx.nonce) (.tx_id call.tx_id),
    .put (type_index_key call.tx.payload.type_ call.tx_id) (.tx_id call.tx_id)]

/-- The writes of a call before the bump of the total. -/
def IndexCall.puts (call : IndexCall o) : List IndexWrite :=
  call.rows ++ (match call.reward_key with
    | some vp_key => [.put vp_key .marker, .bump_rewards]
    | none => [])

theorem IndexCall.writes_eq (call : IndexCall o) (cf : IndexedTransactions) :
    call.writes cf = call.puts ++ (if cf[call.tx_id]?.isSome then [] else [.bump_total]) := rfl

theorem IndexCall.puts_ne_bump {call : IndexCall o} {w : IndexWrite} (h : w ∈ call.puts) :
    w ≠ .bump_total := by
  unfold IndexCall.puts IndexCall.rows at h
  cases hreward : call.reward_key with
  | none =>
    rw [hreward] at h
    simp only [List.append_nil, List.mem_cons, List.not_mem_nil, or_false] at h
    rcases h with rfl | rfl | rfl | rfl | rfl <;> intro heq <;> cases heq
  | some vp_key =>
    rw [hreward] at h
    simp only [List.mem_append, List.mem_cons, List.not_mem_nil, or_false] at h
    rcases h with (rfl | rfl | rfl | rfl | rfl) | (rfl | rfl) <;> intro heq <;> cases heq

theorem IndexCall.puts_total_untouched {call : IndexCall o} {w : IndexWrite}
    (h : w ∈ call.puts) : w.key ≠ INDEXED_TRANSACTIONS_PRIMARY_TOTAL_COUNT_KEY := by
  intro hkey
  have hwrite : w ∈ call.writes ∅ := by
    rw [call.writes_eq]
    exact List.mem_append_left _ h
  rcases (IndexCall.write_cases hwrite).bumps (congrArg List.head? hkey) with rfl | rfl
  · exact absurd hkey (by decide)
  · exact IndexCall.puts_ne_bump h rfl

/-- A call succeeds when its record is there, or when the total is a count that can grow. -/
theorem index_transaction_ok {call : IndexCall o} {cf : IndexedTransactions}
    (hroom : cf[call.tx_id]? = none →
      ∀ row, cf[INDEXED_TRANSACTIONS_PRIMARY_TOTAL_COUNT_KEY]? = some row →
        ∃ n, row = .count n ∧ n.toNat + 1 < 2 ^ 64) :
    ∃ cf', index_transaction cf call = .ok cf' := by
  obtain ⟨cf₁, hputs⟩ := applyWrites_ok (fun w hw => IndexCall.puts_ne_bump hw) cf
  unfold index_transaction
  rw [call.writes_eq, applyWrites_append, hputs]
  by_cases hpresent : cf[call.tx_id]?.isSome = true
  · rw [if_pos hpresent]
    exact ⟨cf₁, rfl⟩
  · rw [if_neg hpresent]
    -- the writes before left the total as it was
    have hread : cf₁[INDEXED_TRANSACTIONS_PRIMARY_TOTAL_COUNT_KEY]? =
        cf[INDEXED_TRANSACTIONS_PRIMARY_TOTAL_COUNT_KEY]? :=
      applyWrites_untouched hputs (fun w hw => IndexCall.puts_total_untouched hw)
    have hbump : ∃ cf₂, bump_indexed_transaction_primary_total_count cf₁ = .ok cf₂ := by
      unfold bump_indexed_transaction_primary_total_count
      rw [hread]
      cases htotal : cf[INDEXED_TRANSACTIONS_PRIMARY_TOTAL_COUNT_KEY]? with
      | none => exact ⟨_, rfl⟩
      | some row =>
        obtain ⟨n, rfl, hn⟩ := hroom (Option.not_isSome_iff_eq_none.mp hpresent) row htotal
        simp only [decode_u64_meta, if_pos hn]
        exact ⟨_, rfl⟩
    obtain ⟨cf₂, hcf₂⟩ := hbump
    refine ⟨cf₂, ?_⟩
    show applyWrites cf₁ [.bump_total] = .ok cf₂
    unfold applyWrites
    rw [List.foldlM_cons, IndexWrite.apply, hcf₂]
    rfl

/-! ## A sequence of calls -/

/-- Makes one call after another. -/
def index_all (cf : IndexedTransactions) (calls : List (IndexCall o)) :
    Except EldError IndexedTransactions :=
  calls.foldlM index_transaction cf

theorem index_all_snoc {cf cf' : IndexedTransactions} {calls : List (IndexCall o)}
    {call : IndexCall o} (h : index_all cf (calls ++ [call]) = .ok cf') :
    ∃ cf₁, index_all cf calls = .ok cf₁ ∧ index_transaction cf₁ call = .ok cf' := by
  unfold index_all at h ⊢
  rw [List.foldlM_append] at h
  cases hcalls : calls.foldlM index_transaction cf with
  | error e =>
    rw [hcalls] at h
    cases h
  | ok cf₁ =>
    rw [hcalls] at h
    refine ⟨cf₁, rfl, ?_⟩
    cases hcall : index_transaction cf₁ call with
    | error e =>
      change (index_transaction cf₁ call >>= pure) = _ at h
      rw [hcall] at h
      cases h
    | ok cf₂ =>
      change (index_transaction cf₁ call >>= pure) = _ at h
      rw [hcall] at h
      exact h

/-- The last call at the position of a key. -/
def lastAt (calls : List (IndexCall o)) (key : Text) : Option (IndexCall o) :=
  calls.reverse.find? (fun call => call.chron_key == key)

/-- The last call with an id. -/
def lastWith (calls : List (IndexCall o)) (id : Text) : Option (IndexCall o) :=
  calls.reverse.find? (fun call => call.tx_id == id)

/-- The rows that a listing reads, after some calls. -/
structure Indexed (calls : List (IndexCall o)) (cf : IndexedTransactions) : Prop where
  positions : ∀ key, isChronKey key = true →
    cf[key]? = (lastAt calls key).map (fun call => .tx_id call.tx_id)
  records : ∀ key, isIdKey key = true →
    cf[key]? = (lastWith calls key).map (fun call => .transaction call.indexed_tx.to_vec)

theorem indexed_empty : Indexed ([] : List (IndexCall o)) ∅ :=
  ⟨fun _ _ => rfl, fun _ _ => rfl⟩

/-- One more call. -/
theorem Indexed.snoc {calls : List (IndexCall o)} {call : IndexCall o}
    {cf cf' : IndexedTransactions} (h : Indexed calls cf) (hcall : AfterCall call cf cf') :
    Indexed (calls ++ [call]) cf' := by
  constructor
  · intro key hkey
    rw [lastAt, List.reverse_append, List.reverse_singleton, List.singleton_append,
      List.find?_cons]
    by_cases heq : call.chron_key = key
    · subst heq
      rw [beq_self_eq_true]
      exact hcall.position
    · rw [beq_false_of_ne heq]
      rw [hcall.other_positions key hkey (fun hk => heq hk.symm)]
      exact h.positions key hkey
  · intro key hkey
    rw [lastWith, List.reverse_append, List.reverse_singleton, List.singleton_append,
      List.find?_cons]
    by_cases heq : call.tx_id = key
    · subst heq
      rw [beq_self_eq_true]
      exact hcall.record
    · rw [beq_false_of_ne heq]
      rw [hcall.other_records key hkey (fun hk => heq hk.symm)]
      exact h.records key hkey

/-- The rows after a whole sequence of calls. -/
theorem indexed_of_calls {calls : List (IndexCall o)} {cf : IndexedTransactions}
    (h : index_all ∅ calls = .ok cf) : Indexed calls cf := by
  induction calls using List.reverseRecOn generalizing cf with
  | nil =>
    cases h
    exact indexed_empty
  | append_singleton calls call ih =>
    obtain ⟨cf₁, hcalls, hcall⟩ := index_all_snoc h
    exact (ih hcalls).snoc (index_transaction.spec hcall)

end eld_chain
