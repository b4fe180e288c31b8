-- The rate limit of prefix queries. For each client and prefix the limiter
-- keeps the times of the queries it allowed in the last minute, under one
-- joined key. In any minute it allows at most as many as its limit, and it
-- refuses only when that many were allowed under the key in the minute
-- before.
import EldChain.Values
import EldChain.Library.FiniteMaps
import EldChain.Library.SlidingWindows
import Mathlib.Algebra.Order.Group.Int

open Std

namespace eld_chain

open windows

/-- A moment of the monotonic clock, in nanoseconds. -/
abbrev Instant := Int

/-- `Duration::from_secs(60)`. -/
def ONE_MINUTE : Int := 60000000000

structure PrefixQueryRateLimiter where
  requests : ExtTreeMap Text (List Instant) compare
  max_requests_per_minute : UInt32

namespace PrefixQueryRateLimiter

def new (max_requests_per_minute : UInt32) : PrefixQueryRateLimiter :=
  ⟨∅, max_requests_per_minute⟩

/-- The key of a client and a prefix. -/
def joinedKey (client_id query_text : Text) : Text := client_id ++ ':' :: query_text

/-- The limiter with other times under a key. -/
def insert (l : PrefixQueryRateLimiter) (key : Text) (timestamps : List Instant) :
    PrefixQueryRateLimiter := { l with requests := l.requests.insert key timestamps }

/-- `is_allowed`, at the moment that it reads from the clock under the lock. -/
def is_allowed (l : PrefixQueryRateLimiter) (client_id query_text : Text) (now : Instant) :
    Bool × PrefixQueryRateLimiter :=
  let key := joinedKey client_id query_text
  let one_minute_ago := now - ONE_MINUTE
  match l.requests[key]? with
  | some timestamps =>
    let retained := timestamps.filter (one_minute_ago < ·)
    if retained.length < l.max_requests_per_minute.toNat then
      (true, l.insert key (retained ++ [now]))
    else (false, l.insert key retained)
  | none => (true, l.insert key [now])

/-- A call of `is_allowed`. -/
structure Call where
  client_id : Text
  query_text : Text
  time : Instant

def Call.key (c : Call) : Text := joinedKey c.client_id c.query_text

/-- The answers to calls made one after the other. -/
def answers : PrefixQueryRateLimiter → List Call → List (Call × Bool)
  | _, [] => []
  | l, c :: rest =>
    let answer := l.is_allowed c.client_id c.query_text c.time
    (c, answer.1) :: answers answer.2 rest

/-- The times at which calls with a key were allowed. -/
def allowed (key : Text) (past : List (Call × Bool)) : List Instant :=
  (past.filter (fun e => e.2 && e.1.key == key)).map (·.1.time)

/-- What a limiter remembers of its calls: for each key the calls of the last minute that
were allowed, at whatever later moment it is asked. -/
def Remembers (l : PrefixQueryRateLimiter) (past : List (Call × Bool)) : Prop :=
  ∀ key, match l.requests[key]? with
    | none => allowed key past = []
    | some timestamps => ∀ now, (∀ e ∈ past, e.1.time ≤ now) →
        recent ONE_MINUTE now timestamps = recent ONE_MINUTE now (allowed key past)

theorem remembers_new (m : UInt32) : Remembers (new m) [] := by
  intro key
  have hnone : (new m).requests[key]? = none := ExtTreeMap.getElem?_empty
  rw [hnone]
  rfl

theorem allowed_append (key : Text) (past past' : List (Call × Bool)) :
    allowed key (past ++ past') = allowed key past ++ allowed key past' := by
  unfold allowed
  rw [List.filter_append, List.map_append]

theorem allowed_le (key : Text) {past : List (Call × Bool)} {now : Instant}
    (h : ∀ e ∈ past, e.1.time ≤ now) : ∀ t ∈ allowed key past, t ≤ now := by
  intro t ht
  obtain ⟨e, he, rfl⟩ := List.mem_map.mp ht
  exact h e (List.mem_filter.mp he).1

theorem allowed_one (key : Text) (c : Call) (answer : Bool) :
    allowed key [(c, answer)] = if answer = true ∧ c.key = key then [c.time] else [] := by
  unfold allowed
  by_cases h : answer = true ∧ c.key = key
  · simp [h]
  · rw [if_neg h, List.filter_cons_of_neg]
    · rfl
    · simpa using h

/-- What decides about a call are the recent times under its key. -/
theorem is_allowed_spec {l : PrefixQueryRateLimiter} {past : List (Call × Bool)} {c : Call}
    (h : Remembers l past) (hm : 1 ≤ l.max_requests_per_minute.toNat)
    (hpast : ∀ e ∈ past, e.1.time ≤ c.time) :
    let before := recent ONE_MINUTE c.time (allowed c.key past)
    l.is_allowed c.client_id c.query_text c.time =
      if before.length < l.max_requests_per_minute.toNat then
        (true, l.insert c.key (before ++ [c.time]))
      else (false, l.insert c.key before) := by
  have hkey := h c.key
  intro before
  unfold is_allowed
  change (match l.requests[c.key]? with | some _ => _ | none => _) = _
  cases hold : l.requests[c.key]? with
  | none =>
    rw [hold] at hkey
    have hbefore : before = [] := congrArg (recent ONE_MINUTE c.time) hkey
    have hroom : before.length < l.max_requests_per_minute.toNat := by
      rw [hbefore]
      exact hm
    rw [if_pos hroom, hbefore]
    rfl
  | some timestamps =>
    rw [hold] at hkey
    have hsame : timestamps.filter (c.time - ONE_MINUTE < ·) = before := hkey c.time hpast
    simp only [hsame]
    rfl

/-- What a call leaves under its key is what it will be remembered by. -/
theorem Remembers.insert {l : PrefixQueryRateLimiter} {past : List (Call × Bool)} {c : Call}
    (h : Remembers l past) (ok : Bool) :
    Remembers (l.insert c.key
      (recent ONE_MINUTE c.time (allowed c.key past) ++ allowed c.key [(c, ok)]))
      (past ++ [(c, ok)]) := by
  intro key
  unfold PrefixQueryRateLimiter.insert
  by_cases hkey : c.key = key
  · subst hkey
    simp only [ExtTreeMap.getElem?_insert_self]
    intro now hnow
    have hlater : c.time ≤ now := hnow (c, ok) (by simp)
    rw [allowed_append, recent_append, recent_append, recent_recent hlater]
  · have hother : allowed key [(c, ok)] = [] := by
      rw [allowed_one, if_neg (fun hc => hkey hc.2)]
    have hread : (l.requests.insert c.key (recent ONE_MINUTE c.time (allowed c.key past) ++
        allowed c.key [(c, ok)]))[key]? = l.requests[key]? := by
      rw [ExtTreeMap.getElem?_insert, if_neg (fun hc => hkey (LawfulEqCmp.eq_of_compare hc))]
    rw [hread, allowed_append, hother, List.append_nil]
    have hold := h key
    cases hentry : l.requests[key]? with
    | none =>
      rw [hentry] at hold
      exact hold
    | some timestamps =>
      rw [hentry] at hold
      intro now hnow
      exact hold now (fun e he => hnow e (List.mem_append_left _ he))

/-- The law of one limiter: what it remembers, its limit, and that it allowed no more calls
with a key in any stretch shorter than a minute. -/
structure Limits (m : Nat) (l : PrefixQueryRateLimiter) (past : List (Call × Bool)) : Prop where
  remembers : Remembers l past
  limit : l.max_requests_per_minute.toNat = m
  sparse : ∀ key, Sparse ONE_MINUTE m (allowed key past)

theorem limits_new (m : UInt32) : Limits m.toNat (new m) [] :=
  ⟨remembers_new m, rfl, fun _ => Sparse.nil _⟩

/-- One call keeps the law, and is refused only after as many allowed ones as the limit. -/
theorem Limits.step {m : Nat} {l : PrefixQueryRateLimiter} {past : List (Call × Bool)} {c : Call}
    (h : Limits m l past) (hm : 1 ≤ m) (hpast : ∀ e ∈ past, e.1.time ≤ c.time) :
    let answer := l.is_allowed c.client_id c.query_text c.time
    Limits m answer.2 (past ++ [(c, answer.1)]) ∧
      (answer.1 = false → (recent ONE_MINUTE c.time (allowed c.key past)).length = m) := by
  have hspec := is_allowed_spec h.remembers (by rw [h.limit]; exact hm) hpast
  have hkept := fun ok => h.remembers.insert (c := c) ok
  simp only [h.limit] at hspec
  by_cases hroom : (recent ONE_MINUTE c.time (allowed c.key past)).length < m
  · rw [if_pos hroom] at hspec
    have hgrant := hkept true
    rw [allowed_one, if_pos ⟨rfl, rfl⟩] at hgrant
    rw [hspec]
    refine ⟨⟨hgrant, h.limit, fun key => ?_⟩, fun hc => Bool.noConfusion hc⟩
    rw [allowed_append, allowed_one]
    by_cases hkey : c.key = key
    · subst hkey
      rw [if_pos ⟨rfl, rfl⟩]
      exact (h.sparse c.key).append hroom
    · rw [if_neg (fun hc => hkey hc.2), List.append_nil]
      exact h.sparse key
  · rw [if_neg hroom] at hspec
    have hrefuse := hkept false
    rw [allowed_one, if_neg (by simp), List.append_nil] at hrefuse
    rw [hspec]
    refine ⟨⟨hrefuse, h.limit, fun key => ?_⟩, fun _ => ?_⟩
    · rw [allowed_append, allowed_one, if_neg (by simp), List.append_nil]
      exact h.sparse key
    · exact Nat.le_antisymm ((h.sparse c.key).recent_le (allowed_le c.key hpast))
        (Nat.not_lt.mp hroom)

/-- The law over a run: no key is allowed more in any narrow stretch, and before each refused
call as many were allowed in the last minute as the limit. -/
theorem Limits.run {m : Nat} {l : PrefixQueryRateLimiter} {past : List (Call × Bool)}
    {calls : List Call} (h : Limits m l past) (hm : 1 ≤ m)
    (hsorted : (past.map Prod.fst ++ calls).Pairwise (fun c d => c.time ≤ d.time)) :
    (∀ key, Sparse ONE_MINUTE m (allowed key (past ++ answers l calls))) ∧
      ∀ before c after, answers l calls = before ++ (c, false) :: after →
        (recent ONE_MINUTE c.time (allowed c.key (past ++ before))).length = m := by
  induction calls generalizing l past with
  | nil =>
    refine ⟨fun key => ?_, fun before c after hsplit => ?_⟩
    · rw [answers, List.append_nil]
      exact h.sparse key
    · rw [answers] at hsplit
      exact absurd hsplit.symm (by simp)
  | cons c rest ih =>
    have hpast : ∀ e ∈ past, e.1.time ≤ c.time := fun e he =>
      (List.pairwise_append.mp hsorted).2.2 e.1 (List.mem_map_of_mem he) c List.mem_cons_self
    obtain ⟨hnext, hrefused⟩ := h.step hm hpast
    generalize hanswer : l.is_allowed c.client_id c.query_text c.time = answer at hnext hrefused
    have hall : answers l (c :: rest) = (c, answer.1) :: answers answer.2 rest := by
      rw [answers, hanswer]
    obtain ⟨hsparse, hlater⟩ := ih hnext (by simpa using hsorted)
    rw [hall]
    refine ⟨fun key => ?_, fun before d after hsplit => ?_⟩
    · have := hsparse key
      rwa [List.append_assoc] at this
    · cases before with
      | nil =>
        obtain ⟨hhead, _⟩ := List.cons.inj hsplit
        obtain ⟨rfl, hok⟩ := Prod.mk.inj hhead
        rw [List.append_nil]
        exact hrefused hok
      | cons first before =>
        obtain ⟨hhead, htail⟩ := List.cons.inj hsplit
        have := hlater before d after htail
        rwa [hhead, List.append_assoc] at this

/-! ## The limit on every run -/

/-- How many calls of a kind were allowed in a stretch of time. -/
def countAllowed (history : List (Call × Bool)) (who : Call → Bool) (w : Instant → Bool) : Nat :=
  history.countP (fun e => e.2 && who e.1 && w e.1.time)

/-- The minute from a moment on, without its end. -/
def minuteFrom (a : Instant) : Instant → Bool := fun t => a ≤ t ∧ t < a + ONE_MINUTE

/-- The minute up to a moment, without its start. -/
def minuteTo (a : Instant) : Instant → Bool := fun t => a - ONE_MINUTE < t ∧ t ≤ a

theorem countAllowed_key (history : List (Call × Bool)) (key : Text) (w : Instant → Bool) :
    countAllowed history (fun c => c.key == key) w = (allowed key history).countP w := by
  unfold countAllowed allowed
  rw [List.countP_map, List.countP_filter]
  apply List.countP_congr
  intro e _
  simp [and_comm]

/-- A client and a prefix are some of the calls with their joined key. -/
theorem countAllowed_pair_le (history : List (Call × Bool)) (client_id query_text : Text)
    (w : Instant → Bool) :
    countAllowed history (fun c => c.client_id == client_id && c.query_text == query_text) w ≤
      countAllowed history (fun c => c.key == joinedKey client_id query_text) w := by
  apply List.countP_mono_left
  intro e _ he
  simp only [Bool.and_eq_true, beq_iff_eq] at he ⊢
  obtain ⟨⟨hok, hclient, hquery⟩, hw⟩ := he
  refine ⟨⟨hok, ?_⟩, hw⟩
  rw [Call.key, hclient, hquery]

theorem recent_length {now : Instant} {log : List Instant} (h : ∀ t ∈ log, t ≤ now) :
    (recent ONE_MINUTE now log).length = log.countP (minuteTo now) := by
  unfold recent minuteTo
  rw [← List.countP_eq_length_filter]
  apply List.countP_congr
  intro t ht
  simp [h t ht]

/-- The calls that a run answers are the ones it was given. -/
theorem map_answers (l : PrefixQueryRateLimiter) (calls : List Call) :
    (answers l calls).map Prod.fst = calls := by
  induction calls generalizing l with
  | nil => rfl
  | cons c rest ih => rw [answers, List.map_cons, ih]

/-- Over any calls at non-decreasing times, a limiter with a limit of at least one allows no
client and prefix more calls in any half-open minute than the limit, and it refuses a call only
when as many calls with the same joined key were allowed in the minute up to it. -/
theorem at_most_the_limit_is_allowed_in_any_minute (m : UInt32) (hm : 1 ≤ m.toNat)
    (calls : List Call) (hsorted : calls.Pairwise (fun c d => c.time ≤ d.time)) :
    (∀ client_id query_text a,
      countAllowed (answers (new m) calls)
        (fun c => c.client_id == client_id && c.query_text == query_text) (minuteFrom a) ≤
          m.toNat ∧
      countAllowed (answers (new m) calls)
        (fun c => c.client_id == client_id && c.query_text == query_text) (minuteTo a) ≤
          m.toNat) ∧
    ∀ before c after, answers (new m) calls = before ++ (c, false) :: after →
      countAllowed before (fun d => d.key == c.key) (minuteTo c.time) = m.toNat := by
  have hfresh : (([] : List (Call × Bool)).map Prod.fst ++ calls).Pairwise
      (fun c d => c.time ≤ d.time) := hsorted
  obtain ⟨hsparse, hrefused⟩ := (limits_new m).run hm hfresh
  simp only [List.nil_append] at hsparse hrefused
  refine ⟨fun client_id query_text a => ?_, fun before c after hsplit => ?_⟩
  · have hfrom := hsparse (joinedKey client_id query_text) _ (narrow_from a)
    have hto := hsparse (joinedKey client_id query_text) _ (narrow_after (a - ONE_MINUTE))
    rw [← countAllowed_key] at hfrom hto
    rw [sub_add_cancel] at hto
    exact ⟨Nat.le_trans (countAllowed_pair_le _ _ _ _) hfrom,
      Nat.le_trans (countAllowed_pair_le _ _ _ _) hto⟩
  · have hcalls := map_answers (new m) calls
    rw [hsplit, List.map_append] at hcalls
    rw [← hcalls] at hsorted
    have hpast : ∀ e ∈ before, e.1.time ≤ c.time := fun e he =>
      (List.pairwise_append.mp hsorted).2.2 e.1 (List.mem_map_of_mem he) c (by simp)
    rw [countAllowed_key, ← recent_length (allowed_le c.key hpast)]
    exact hrefused before c after hsplit

/-- Two calls a second apart, and one a minute after the first. -/
def threeCalls : List Call :=
  [⟨"a".toList, "@eld".toList, 0⟩, ⟨"a".toList, "@eld".toList, 1000000000⟩,
    ⟨"a".toList, "@eld".toList, ONE_MINUTE⟩]

theorem at_most_one_of_three_calls_in_a_minute :
    countAllowed (answers (new 1) threeCalls)
        (fun c => c.client_id == "a".toList && c.query_text == "@eld".toList) (minuteFrom 0) ≤ 1 :=
  ((at_most_the_limit_is_allowed_in_any_minute 1 (by decide) threeCalls
    (by decide)).1 "a".toList "@eld".toList 0).1

end PrefixQueryRateLimiter

end eld_chain
