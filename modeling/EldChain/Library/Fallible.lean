-- Programs that may be stopped part-way: what they did to the state until
-- then stays. The two ways such a program ends, the rules by which they
-- are found, and the rule of a relation that every part of a program keeps.
import Mathlib.Tactic.Common

namespace fallible

variable {S E A B : Type}

/-- From `s` the program ends with `Q`, or is stopped with `R`. -/
def Ends (m : EStateM E S A) (s : S) (Q : A → S → Prop) (R : E → S → Prop) : Prop :=
  match m s with
  | .ok a t => Q a t
  | .error e t => R e t

theorem ends_pure (a : A) (s : S) (Q : A → S → Prop) (R : E → S → Prop) :
    Ends (pure a) s Q R ↔ Q a s := Iff.rfl

theorem ends_get (s : S) (Q : S → S → Prop) (R : E → S → Prop) :
    Ends get s Q R ↔ Q s s := Iff.rfl

theorem ends_modify (f : S → S) (s : S) (Q : PUnit → S → Prop) (R : E → S → Prop) :
    Ends (modify f) s Q R ↔ Q ⟨⟩ (f s) := Iff.rfl

theorem bind_of_ok {m : EStateM E S A} {s t : S} {a : A} (f : A → EStateM E S B)
    (h : m s = .ok a t) : (m >>= f) s = f a t := by
  change EStateM.bind m f s = f a t
  unfold EStateM.bind
  rw [h]

theorem bind_of_error {m : EStateM E S A} {s t : S} {e : E} (f : A → EStateM E S B)
    (h : m s = .error e t) : (m >>= f) s = .error e t := by
  change EStateM.bind m f s = .error e t
  unfold EStateM.bind
  rw [h]

theorem ends_bind (m : EStateM E S A) (f : A → EStateM E S B) (s : S) (Q : B → S → Prop)
    (R : E → S → Prop) :
    Ends (m >>= f) s Q R ↔ Ends m s (fun a t => Ends (f a) t Q R) R := by
  unfold Ends
  cases hm : m s with
  | ok a t => rw [bind_of_ok f hm]
  | error e t => rw [bind_of_error f hm]

theorem ends_of_ok {m : EStateM E S A} {s t : S} {a : A} {Q : A → S → Prop} {R : E → S → Prop}
    (hm : m s = .ok a t) (h : Q a t) : Ends m s Q R := by
  unfold Ends
  rw [hm]
  exact h

theorem ends_of_error {m : EStateM E S A} {s t : S} {e : E} {Q : A → S → Prop}
    {R : E → S → Prop} (hm : m s = .error e t) (h : R e t) : Ends m s Q R := by
  unfold Ends
  rw [hm]
  exact h

/-- Both ends may be weakened. -/
theorem Ends.mono {m : EStateM E S A} {s : S} {Q Q' : A → S → Prop} {R R' : E → S → Prop}
    (h : Ends m s Q R) (hq : ∀ a t, Q a t → Q' a t) (hr : ∀ e t, R e t → R' e t) :
    Ends m s Q' R' := by
  unfold Ends at *
  cases hm : m s with
  | ok a t => rw [hm] at h; exact hq a t h
  | error e t => rw [hm] at h; exact hr e t h

theorem Ends.of_ok {m : EStateM E S A} {s t : S} {a : A} {Q : A → S → Prop}
    {R : E → S → Prop} (h : Ends m s Q R) (hm : m s = .ok a t) : Q a t := by
  unfold Ends at h
  rw [hm] at h
  exact h

theorem Ends.of_error {m : EStateM E S A} {s t : S} {e : E} {Q : A → S → Prop}
    {R : E → S → Prop} (h : Ends m s Q R) (hm : m s = .error e t) : R e t := by
  unfold Ends at h
  rw [hm] at h
  exact h

/-- A program that ends well has gone through its first part. -/
theorem bind_ok {m : EStateM E S A} {f : A → EStateM E S B} {s t : S} {b : B}
    (h : (m >>= f) s = .ok b t) : ∃ a u, m s = .ok a u ∧ f a u = .ok b t := by
  cases hm : m s with
  | ok a u => rw [bind_of_ok f hm] at h; exact ⟨a, u, rfl, h⟩
  | error e u => rw [bind_of_error f hm] at h; cases h

/-- The state in which a program leaves off, either way. -/
def after (m : EStateM E S A) (s : S) : S :=
  match m s with
  | .ok _ t => t
  | .error _ t => t

theorem after_of_ok {m : EStateM E S A} {s t : S} {a : A} (h : m s = .ok a t) :
    after m s = t := by
  unfold after
  rw [h]

theorem after_of_error {m : EStateM E S A} {s t : S} {e : E} (h : m s = .error e t) :
    after m s = t := by
  unfold after
  rw [h]

theorem Ends.after {m : EStateM E S A} {s : S} {P : S → Prop}
    (h : Ends m s (fun _ t => P t) (fun _ t => P t)) : P (fallible.after m s) := by
  cases hm : m s with
  | ok a t => rw [after_of_ok hm]; exact h.of_ok hm
  | error e t => rw [after_of_error hm]; exact h.of_error hm

/-- What a program that ends well gives, with the state after it. -/
def resultOf (m : EStateM E S A) (s : S) : Option (A × S) :=
  match m s with
  | .ok a t => some (a, t)
  | .error _ _ => none

theorem eq_ok_of_resultOf {m : EStateM E S A} {s : S} {r : A × S} (h : resultOf m s = some r) :
    m s = .ok r.1 r.2 := by
  unfold resultOf at h
  cases hm : m s with
  | ok a u => rw [hm] at h; cases h; rfl
  | error e u => rw [hm] at h; cases h

/-- The state after a program that ends well. -/
def succeeding (m : EStateM E S A) (s : S) : Option S := (resultOf m s).map Prod.snd

theorem succeeding_eq_some {m : EStateM E S A} {s t : S} (h : succeeding m s = some t) :
    ∃ a, m s = .ok a t := by
  obtain ⟨r, hr, rfl⟩ := Option.map_eq_some_iff.mp h
  exact ⟨r.1, eq_ok_of_resultOf hr⟩

/-- What a program gives, or the error that stops it. -/
def replyOf (m : EStateM E S A) (s : S) : Except E A :=
  match m s with
  | .ok a _ => .ok a
  | .error e _ => .error e

theorem replyOf_of_ends {m : EStateM E S A} {s : S} {b : A}
    (h : Ends m s (fun a _ => a = b) (fun _ _ => False)) : replyOf m s = .ok b := by
  unfold replyOf
  cases hm : m s with
  | ok a t => rw [h.of_ok hm]
  | error e t => exact (h.of_error hm).elim

/-- Runs a program and passes over its error. -/
def ignoring (m : EStateM E S A) : EStateM E S Unit := fun s => .ok () (after m s)

theorem ends_ignoring (m : EStateM E S A) (s : S) (Q : Unit → S → Prop) (R : E → S → Prop) :
    Ends (ignoring m) s Q R ↔ Q () (fallible.after m s) := Iff.rfl

end fallible
