-- Reading values off the front of a stream. A reader gives the value and
-- what is left, and it reads an encoding when it takes exactly the symbols
-- that the encoding wrote, whatever follows them. Readers of parts make a
-- reader of the whole.
import Mathlib.Data.List.Basic

namespace readers

variable {S A B : Type}

abbrev Reader (S A : Type) := List S → Option (A × List S)

/-- The reader reads back what the encoding writes of a good value. -/
def Reads (Good : A → Prop) (read : Reader S A) (enc : A → List S) : Prop :=
  ∀ a rest, Good a → read (enc a ++ rest) = some (a, rest)

/-! ## Parts -/

/-- As many symbols as asked for. -/
def symbols (n : Nat) : Reader S (List S) :=
  fun s => if s.length < n then none else some (s.take n, s.drop n)

theorem symbols_reads (n : Nat) : Reads (fun l : List S => l.length = n) (symbols n) id := by
  intro l rest hl
  unfold symbols
  rw [id, if_neg (by rw [List.length_append]; omega), ← hl, List.take_left, List.drop_left]

/-- A reader that goes on with the value it has read. -/
def andThen (read : Reader S A) (next : A → Reader S B) : Reader S B :=
  fun s => (read s).bind (fun r => next r.1 r.2)

theorem Reads.andThen {Good : A → Prop} {read : Reader S A} {enc : A → List S}
    (h : Reads Good read enc) (next : A → Reader S B) {a : A} (rest : List S) (ha : Good a) :
    readers.andThen read next (enc a ++ rest) = next a rest := by
  unfold readers.andThen
  rw [h a rest ha, Option.bind_some]

/-- A value that the reader makes of another, where it can. -/
def converted (read : Reader S A) (convert : A → Option B) : Reader S B :=
  fun s => (read s).bind (fun r => (convert r.1).map (fun b => (b, r.2)))

theorem Reads.converted {Good : A → Prop} {read : Reader S A} {enc : A → List S}
    (h : Reads Good read enc) {convert : A → Option B} {write : B → A} {Fine : B → Prop}
    (hgood : ∀ b, Fine b → Good (write b)) (hback : ∀ b, Fine b → convert (write b) = some b) :
    Reads Fine (readers.converted read convert) (fun b => enc (write b)) := by
  intro b rest hb
  unfold readers.converted
  rw [h _ rest (hgood b hb), Option.bind_some, hback b hb, Option.map_some]

/-- A value that is made of a fixed number of symbols. -/
theorem Reads.of_symbols {n : Nat} {convert : List S → Option B} {enc : B → List S}
    {Fine : B → Prop} (hlen : ∀ b, Fine b → (enc b).length = n)
    (hback : ∀ b, Fine b → convert (enc b) = some b) :
    Reads Fine (readers.converted (symbols n) convert) enc :=
  (symbols_reads n).converted hlen hback

/-! ## Lists -/

def items (read : Reader S A) : Nat → Reader S (List A)
  | 0 => fun s => some ([], s)
  | n + 1 => andThen read (fun a => converted (items read n) (fun l => some (a :: l)))

/-- A list with its length in front. -/
def counted (count : Reader S Nat) (read : Reader S A) : Reader S (List A) :=
  andThen count (items read)

theorem Reads.items {Good : A → Prop} {read : Reader S A} {enc : A → List S}
    (h : Reads Good read enc) (l : List A) (rest : List S) (hl : ∀ a ∈ l, Good a) :
    readers.items read l.length (l.flatMap enc ++ rest) = some (l, rest) := by
  induction l with
  | nil => rfl
  | cons a l ih =>
    have htail := ih (fun x hx => hl x (List.mem_cons_of_mem _ hx))
    rw [List.length_cons, readers.items, List.flatMap_cons, List.append_assoc,
      h.andThen _ _ (hl a List.mem_cons_self)]
    unfold readers.converted
    rw [htail, Option.bind_some, Option.map_some]

theorem Reads.counted {Small : Nat → Prop} {count : Reader S Nat} {number : Nat → List S}
    (hcount : Reads Small count number) {Good : A → Prop} {read : Reader S A} {enc : A → List S}
    (h : Reads Good read enc) :
    Reads (fun l : List A => Small l.length ∧ ∀ a ∈ l, Good a) (readers.counted count read)
      (fun l => number l.length ++ l.flatMap enc) := by
  intro l rest hl
  unfold readers.counted
  rw [List.append_assoc, hcount.andThen _ _ hl.1]
  exact h.items l rest hl.2

end readers
