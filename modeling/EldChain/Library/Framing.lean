-- Encodings whose values can be read off the front of a stream. Such an
-- encoding stays unambiguous when more is written after it, so a record
-- is read field by field. A list with no count in front is the
-- exception: it is only read back by a reader who knows its length.
import Mathlib.Data.List.Basic

namespace framing

variable {S α : Type}

/-- Two streams that start with the encodings of two good values and are equal start with
the same value, and the same stream follows. -/
def Delimited (Good : α → Prop) (enc : α → List S) : Prop :=
  ∀ a b r s, Good a → Good b → enc a ++ r = enc b ++ s → a = b ∧ r = s

/-- An injective encoding of one fixed length. -/
theorem Delimited.of_length {Good : α → Prop} {enc : α → List S} (n : Nat)
    (hlen : ∀ a, (enc a).length = n)
    (hinj : ∀ a b, Good a → Good b → enc a = enc b → a = b) : Delimited Good enc := by
  intro a b r s ha hb h
  obtain ⟨he, hr⟩ := List.append_inj h (by rw [hlen, hlen])
  exact ⟨hinj a b ha hb he, hr⟩

/-- Lists of one length, with nothing but their items written. -/
theorem Delimited.items {Good : α → Prop} {enc : α → List S} (h : Delimited Good enc)
    {l m : List α} {r s : List S} (hl : ∀ a ∈ l, Good a) (hm : ∀ a ∈ m, Good a)
    (hlen : l.length = m.length) (he : l.flatMap enc ++ r = m.flatMap enc ++ s) :
    l = m ∧ r = s := by
  induction l generalizing m with
  | nil =>
    cases m with
    | nil => exact ⟨rfl, by simpa using he⟩
    | cons b m => simp at hlen
  | cons a l ih =>
    cases m with
    | nil => simp at hlen
    | cons b m =>
      rw [List.flatMap_cons, List.flatMap_cons, List.append_assoc, List.append_assoc] at he
      obtain ⟨hab, htail⟩ := h a b _ _ (hl a List.mem_cons_self) (hm b List.mem_cons_self) he
      obtain ⟨hlm, hr⟩ := ih (fun x hx => hl x (List.mem_cons_of_mem _ hx))
        (fun x hx => hm x (List.mem_cons_of_mem _ hx)) (by simpa using hlen) htail
      exact ⟨by rw [hab, hlm], hr⟩

/-- A list with its length in front. -/
theorem Delimited.counted {Good : α → Prop} {enc : α → List S} {Small : Nat → Prop}
    {count : Nat → List S} (hc : Delimited Small count) (h : Delimited Good enc) :
    Delimited (fun l : List α => Small l.length ∧ ∀ a ∈ l, Good a)
      (fun l => count l.length ++ l.flatMap enc) := by
  intro l m r s hl hm he
  simp only [List.append_assoc] at he
  obtain ⟨hlen, he⟩ := hc _ _ _ _ hl.1 hm.1 he
  exact h.items hl.2 hm.2 hlen he

/-- An optional value with a tag in front. -/
theorem Delimited.tagged {Good : α → Prop} {enc : α → List S} {Small : Nat → Prop}
    {tag : Nat → List S} (ht : Delimited Small tag) (h0 : Small 0) (h1 : Small 1)
    (h : Delimited Good enc) :
    Delimited (fun x : Option α => ∀ a ∈ x, Good a)
      (fun x => match x with | none => tag 0 | some a => tag 1 ++ enc a) := by
  rintro (_ | a) (_ | b) r s ha hb he
  · exact ⟨rfl, (ht 0 0 r s h0 h0 he).2⟩
  · simp only [List.append_assoc] at he
    exact absurd (ht 0 1 _ _ h0 h1 he).1 (by decide)
  · simp only [List.append_assoc] at he
    exact absurd (ht 1 0 _ _ h1 h0 he).1 (by decide)
  · simp only [List.append_assoc] at he
    obtain ⟨rfl, hr⟩ := h a b r s (ha a rfl) (hb b rfl) (ht 1 1 _ _ h1 h1 he).2
    exact ⟨rfl, hr⟩

/-- What stands before the first stop symbol is the same in equal streams. -/
theorem stop_split {stop : S} {l m r s : List S} (hl : stop ∉ l) (hm : stop ∉ m)
    (he : l ++ stop :: r = m ++ stop :: s) : l = m ∧ r = s := by
  induction l generalizing m with
  | nil =>
    cases m with
    | nil => exact ⟨rfl, (List.cons.inj he).2⟩
    | cons b m =>
      have hb : stop = b := (List.cons.inj he).1
      exact absurd (hb ▸ List.mem_cons_self) hm
  | cons a l ih =>
    cases m with
    | nil =>
      have ha : a = stop := (List.cons.inj he).1
      exact absurd (ha ▸ List.mem_cons_self) hl
    | cons b m =>
      obtain ⟨hab, htail⟩ := List.cons.inj he
      obtain ⟨hlm, hr⟩ := ih (fun h => hl (List.mem_cons_of_mem _ h))
        (fun h => hm (List.mem_cons_of_mem _ h)) htail
      exact ⟨by rw [hab, hlm], hr⟩

/-- An injective encoding that never uses the symbol that ends it. -/
theorem Delimited.terminated {enc : α → List S} (stop : S) (hstop : ∀ a, stop ∉ enc a)
    (hinj : ∀ a b, enc a = enc b → a = b) :
    Delimited (fun _ => True) (fun a => enc a ++ [stop]) := by
  intro a b r s _ _ he
  simp only [List.append_assoc, List.singleton_append] at he
  obtain ⟨hab, hr⟩ := stop_split (hstop a) (hstop b) he
  exact ⟨hinj a b hab, hr⟩

end framing
