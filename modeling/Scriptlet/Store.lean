import Scriptlet.Value

/-!
# Variables

A store gives values to names.  There is one store for a whole program: a declaration and an
assignment both write it, and nothing is ever taken out of it.

## Main definitions

* `Store` — the bindings, in the order in which the names first came.
* `Store.get?`, `Store.set` — look a name up, bind a name.

## Main results

* `Store.get?_set_self`, `Store.get?_set_of_ne` — what is bound after binding a name.
-/

namespace Scriptlet

/-- Names and their values, in the order in which the names first came. -/
structure Store where
  /-- Each name with its value. -/
  bindings : List (String × Value)
  deriving DecidableEq

namespace Store

/-- No names. -/
def empty : Store := ⟨[]⟩

instance : Inhabited Store := ⟨empty⟩

/-- Binds a name in a list of bindings: where it stands, or else at the end. -/
def bind (name : String) (value : Value) : List (String × Value) → List (String × Value)
  | [] => [(name, value)]
  | b :: rest => if b.1 = name then (name, value) :: rest else b :: bind name value rest

/-- Binds a name to a value, whether it was bound before or not. -/
def set (s : Store) (name : String) (value : Value) : Store := ⟨bind name value s.bindings⟩

/-- The value bound to a name. -/
def get? (s : Store) (name : String) : Option Value := s.bindings.lookup name

@[simp] theorem get?_empty (name : String) : empty.get? name = none := rfl

@[simp] theorem get?_set_self (s : Store) (name : String) (value : Value) :
    (s.set name value).get? name = some value := by
  obtain ⟨l⟩ := s
  simp only [get?, set]
  induction l with
  | nil => simp [bind]
  | cons b rest ih =>
    rw [bind]
    split
    · simp
    · rename_i h
      rw [List.lookup_cons, ih]
      simp [show (name == b.1) = false by simpa using fun e => h e.symm]

theorem get?_set_of_ne (s : Store) {name other : String} (value : Value) (h : other ≠ name) :
    (s.set name value).get? other = s.get? other := by
  obtain ⟨l⟩ := s
  simp only [get?, set]
  induction l with
  | nil => simp [bind, h]
  | cons b rest ih =>
    rw [bind]
    split
    · rename_i hb
      have hne : (other == name) = false := by simpa using h
      rw [List.lookup_cons, List.lookup_cons, hb, hne]
    · rw [List.lookup_cons, List.lookup_cons, ih]

/-- The value of a name in an expression: nil unless it is bound. -/
def value (s : Store) (name : String) : Value := (s.get? name).getD .nil

end Store

end Scriptlet
