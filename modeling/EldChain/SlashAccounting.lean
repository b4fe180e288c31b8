-- Failed proofs and slashes. The count of a provider goes round modulo the
-- limit, and each time round burns its stake. The other providers keep
-- their counts and their entries, however the failures are interleaved.
import EldChain.Invariants

open Std

namespace eld_chain

variable (pc : ProtocolConstants)

/-! ## One failure -/

/-- The stored count of a provider, 0 when absent. -/
def AppStateEnvelope.failures (e : AppStateEnvelope) (provider : Address) : UInt32 :=
  e.failed_proof_counts.getD provider 0

/-- The entry of a provider, as the code looks it up. -/
def AppStateEnvelope.providerEntry (e : AppStateEnvelope) (provider : Address) :
    Option CapacityValidatorInfo :=
  e.capacity_validators.find? (fun cv => cv.address == provider)

theorem find_updateFirst_self {α : Type} {p : α → Bool} {f : α → α} {l : List α}
    (hf : ∀ x, p (f x) = p x) : (updateFirst p f l).find? p = (l.find? p).map f := by
  induction l with
  | nil => rfl
  | cons x l ih =>
    rw [updateFirst, List.find?_cons]
    by_cases hx : p x = true
    · rw [if_pos hx, List.find?_cons, hf, hx]
      rfl
    · rw [if_neg hx, List.find?_cons, Bool.eq_false_iff.mpr hx]
      exact ih

/-- An update of an entry leaves the entries that it does not look for. -/
theorem filter_updateFirst {α : Type} {p q : α → Bool} {f : α → α} {l : List α}
    (hq : ∀ x, p x = true → q x = false) (hqf : ∀ x, p x = true → q (f x) = false) :
    (updateFirst p f l).filter q = l.filter q := by
  induction l with
  | nil => rfl
  | cons x l ih =>
    rw [updateFirst]
    by_cases hx : p x = true
    · rw [if_pos hx, List.filter_cons, List.filter_cons, hq x hx, hqf x hx]
      rfl
    · rw [if_neg hx, List.filter_cons, List.filter_cons, ih]

/-- Below the limit, a failure raises the count, or reaches the limit, is a slash and starts
again from 0. -/
theorem failures_recorded {e : AppStateEnvelope} {provider : Address}
    (h : e.failures provider < pc.failed_proofs_before_slash) :
    ((record_failed_capacity_proof pc e provider).1.2 = true ↔
      (e.failures provider).toNat + 1 = pc.failed_proofs_before_slash.toNat) ∧
    ((record_failed_capacity_proof pc e provider).2.failures provider).toNat =
      ((e.failures provider).toNat + 1) % pc.failed_proofs_before_slash.toNat := by
  have hlimit := pc.failed_proofs_before_slash.toNat_lt
  have hlt := UInt32.lt_iff_toNat_lt.mp h
  have hcount : (UInt32.saturating_add (e.failures provider) 1).toNat =
      (e.failures provider).toNat + 1 := by
    have hone : (1 : UInt32).toNat = 1 := rfl
    unfold UInt32.saturating_add
    rw [UInt32.toNat_ofNat', hone, Nat.min_eq_left (by omega), Nat.mod_eq_of_lt (by omega)]
  unfold AppStateEnvelope.failures at hcount hlt ⊢
  unfold record_failed_capacity_proof
  simp only
  by_cases hreached : pc.failed_proofs_before_slash ≤
      UInt32.saturating_add (e.failed_proof_counts.getD provider 0) 1
  · have hle := UInt32.le_iff_toNat_le.mp hreached
    have heq : (e.failed_proof_counts.getD provider 0).toNat + 1 =
        pc.failed_proofs_before_slash.toNat := by omega
    rw [if_pos hreached]
    refine ⟨⟨fun _ => heq, fun _ => rfl⟩, ?_⟩
    rw [ExtTreeMap.getD_insert_self, heq, Nat.mod_self]
    rfl
  · have hle := mt UInt32.le_iff_toNat_le.mpr hreached
    rw [if_neg hreached]
    refine ⟨⟨fun hslash => Bool.noConfusion hslash, fun heq => absurd heq (by omega)⟩, ?_⟩
    rw [ExtTreeMap.getD_insert_self, hcount, Nat.mod_eq_of_lt (by omega)]

/-- A failure leaves the counts of the other providers. -/
theorem failures_of_others {e : AppStateEnvelope} {provider other : Address}
    (h : other ≠ provider) :
    (record_failed_capacity_proof pc e provider).2.failures other = e.failures other := by
  have hcmp : ¬ compare provider other = .eq := fun heq => h (compare_eq_iff_eq.mp heq).symm
  unfold AppStateEnvelope.failures record_failed_capacity_proof
  simp only
  split
  · rw [ExtTreeMap.getD_insert, if_neg hcmp]
  · rw [ExtTreeMap.getD_insert, if_neg hcmp]

/-- A failure leaves the entries of the other providers. -/
theorem entries_of_others (e : AppStateEnvelope) (provider : Address) :
    (record_failed_capacity_proof pc e provider).2.capacity_validators.filter
      (fun cv => cv.address != provider) =
    e.capacity_validators.filter (fun cv => cv.address != provider) := by
  unfold record_failed_capacity_proof
  simp only
  split
  · apply filter_updateFirst
    · intro cv hcv
      rw [bne, hcv]
      rfl
    · intro cv hcv
      rw [bne, hcv]
      rfl
  · rfl

/-- A slash leaves the provider, if it is registered, without its stake. -/
theorem stake_after_slash {e : AppStateEnvelope} {provider : Address}
    (h : (record_failed_capacity_proof pc e provider).1.2 = true) {cv : CapacityValidatorInfo}
    (hcv : (record_failed_capacity_proof pc e provider).2.providerEntry provider = some cv) :
    cv.stake = Coin.zero := by
  unfold AppStateEnvelope.providerEntry at hcv
  unfold record_failed_capacity_proof at h hcv
  simp only at h hcv
  by_cases hreached : pc.failed_proofs_before_slash ≤
      UInt32.saturating_add (e.failed_proof_counts.getD provider 0) 1
  · rw [if_pos hreached] at hcv
    simp only at hcv
    rw [find_updateFirst_self
      (f := fun cv : CapacityValidatorInfo => { cv with stake := Coin.zero }) (fun _ => rfl)] at hcv
    obtain ⟨old, _, rfl⟩ := Option.map_eq_some_iff.mp hcv
    rfl
  · rw [if_neg hreached] at h
    cases h

/-! ## One failure after another -/

/-- Records a failure of each provider of a list, and gives the answers. -/
def record_failures (e : AppStateEnvelope) :
    List Address → List (UInt32 × Bool) × AppStateEnvelope
  | [] => ([], e)
  | provider :: providers =>
    let recorded := record_failed_capacity_proof pc e provider
    let rest := record_failures recorded.2 providers
    (recorded.1 :: rest.1, rest.2)

/-- How many calls for a provider reported a slash. -/
def slashes (providers : List Address) (answers : List (UInt32 × Bool)) (provider : Address) :
    Nat :=
  (providers.zip answers).countP (fun call => call.1 == provider && call.2.2)

/-- The call after some others is made on the state they lead to. -/
theorem answer_of_call (e : AppStateEnvelope) (earlier later : List Address)
    (provider : Address) :
    (record_failures pc e (earlier ++ provider :: later)).1[earlier.length]? =
      some (record_failed_capacity_proof pc (record_failures pc e earlier).2 provider).1 := by
  induction earlier generalizing e with
  | nil => rfl
  | cons first earlier ih =>
    rw [List.cons_append, record_failures, record_failures, List.length_cons]
    simp only
    rw [List.getElem?_cons_succ]
    exact ih _

/-- The modular law of a run, for a provider with some failures before it. -/
theorem failures_and_slashes (providers : List Address) {e : AppStateEnvelope}
    {provider : Address} (h : e.failures provider < pc.failed_proofs_before_slash) :
    ((record_failures pc e providers).2.failures provider).toNat =
      ((e.failures provider).toNat + providers.count provider) %
        pc.failed_proofs_before_slash.toNat ∧
    slashes providers (record_failures pc e providers).1 provider =
      ((e.failures provider).toNat + providers.count provider) /
        pc.failed_proofs_before_slash.toNat := by
  induction providers generalizing e with
  | nil =>
    have hlt := UInt32.lt_iff_toNat_lt.mp h
    rw [List.count_nil, Nat.add_zero, Nat.mod_eq_of_lt hlt, Nat.div_eq_of_lt hlt]
    exact ⟨rfl, rfl⟩
  | cons first providers ih =>
    have hlt := UInt32.lt_iff_toNat_lt.mp h
    rw [record_failures, slashes, List.zip_cons_cons, List.countP_cons, List.count_cons]
    simp only
    by_cases hself : first = provider
    · subst hself
      obtain ⟨hslash, hcount⟩ := failures_recorded pc h
      have hnext : (record_failed_capacity_proof pc e first).2.failures first <
          pc.failed_proofs_before_slash := by
        rw [UInt32.lt_iff_toNat_lt, hcount]
        exact Nat.mod_lt _ (by omega)
      obtain ⟨hfailures, hslashes⟩ := ih hnext
      unfold slashes at hslashes
      rw [hfailures, hslashes, hcount]
      simp only [beq_self_eq_true, Bool.true_and, if_true]
      by_cases hreached : (e.failures first).toNat + 1 = pc.failed_proofs_before_slash.toNat
      · rw [if_pos (hslash.mpr hreached), hreached, Nat.mod_self, Nat.zero_add]
        have hsum : (e.failures first).toNat + (providers.count first + 1) =
            providers.count first + pc.failed_proofs_before_slash.toNat := by omega
        rw [hsum, Nat.add_mod_right, Nat.add_div_right _ (by omega)]
        exact ⟨rfl, rfl⟩
      · have hbelow : ((e.failures first).toNat + 1) % pc.failed_proofs_before_slash.toNat =
            (e.failures first).toNat + 1 := Nat.mod_eq_of_lt (by omega)
        have hsum : (e.failures first).toNat + (providers.count first + 1) =
            (e.failures first).toNat + 1 + providers.count first := by omega
        rw [if_neg (mt hslash.mp hreached), hbelow, hsum, Nat.add_zero]
        exact ⟨rfl, rfl⟩
    · have hkept : (record_failed_capacity_proof pc e first).2.failures provider =
          e.failures provider := failures_of_others pc (fun heq => hself heq.symm)
      obtain ⟨hfailures, hslashes⟩ := ih (by rw [hkept]; exact h)
      unfold slashes at hslashes
      rw [hfailures, hslashes, hkept]
      simp [hself]

/-- Slashes are counted exactly. In every sequence of failures, of any providers in any
order, the stored count of a provider is the number of its failures modulo the limit, and as
many calls reported a slash as the limit goes into it. After each call that reports a slash
the provider's stake, if it is registered, is zero, and no call changes the count or an entry
of another provider. -/
theorem slashes_are_counted_exactly {e : AppStateEnvelope} (providers : List Address)
    {provider : Address} (h : e.failures provider < pc.failed_proofs_before_slash) :
    ((record_failures pc e providers).2.failures provider).toNat =
      ((e.failures provider).toNat + providers.count provider) %
        pc.failed_proofs_before_slash.toNat ∧
    slashes providers (record_failures pc e providers).1 provider =
      ((e.failures provider).toNat + providers.count provider) /
        pc.failed_proofs_before_slash.toNat ∧
    ∀ earlier failing later, providers = earlier ++ failing :: later →
      let before := (record_failures pc e earlier).2
      let recorded := record_failed_capacity_proof pc before failing
      (record_failures pc e providers).1[earlier.length]? = some recorded.1 ∧
      (recorded.1.2 = true → ∀ cv, recorded.2.providerEntry failing = some cv →
        cv.stake = Coin.zero) ∧
      (∀ other, other ≠ failing → recorded.2.failures other = before.failures other) ∧
      recorded.2.capacity_validators.filter (fun cv => cv.address != failing) =
        before.capacity_validators.filter (fun cv => cv.address != failing) := by
  obtain ⟨hcount, hslashes⟩ := failures_and_slashes pc providers h
  refine ⟨hcount, hslashes, ?_⟩
  rintro earlier failing later rfl
  refine ⟨answer_of_call pc e earlier later failing, ?_, ?_, ?_⟩
  · intro hslash cv hcv
    exact stake_after_slash pc hslash hcv
  · intro other hother
    exact failures_of_others pc hother
  · exact entries_of_others pc _ failing

/-- The fourth failure of a provider counts from 1 again, after one slash. -/
theorem fourth_failure_counts_again :
    let calls : List Address := [1, 2, 1, 1, 2, 1]
    let run := record_failures ProtocolConstants.local_dev AppStateEnvelope.default calls
    (run.2.failures 1).toNat = 1 ∧ slashes calls run.1 1 = 1 := by
  have hstart : AppStateEnvelope.default.failures 1 <
      ProtocolConstants.local_dev.failed_proofs_before_slash := by decide
  obtain ⟨hcount, hslashes, _⟩ :=
    slashes_are_counted_exactly ProtocolConstants.local_dev [1, 2, 1, 1, 2, 1] hstart
  exact ⟨hcount, hslashes⟩

end eld_chain
