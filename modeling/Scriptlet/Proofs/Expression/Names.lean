import Scriptlet.Proofs.Expression.Invariant

/-!
# The variables of expressions

A store is looked at twice for an expression: when its value is computed, and before that when its
tree is built, for a sign does not stand in front of something that is nil.  Either way only the
names of the identifiers in the window are looked up.  A group is a text, so there is no variable in
its tree; but what that text is may depend on the variables in the group.

While a tree is built, nothing is asked of a store but whether some smaller trees are nil in it.  So
two stores in which the same trees are nil give a window the same tree, even if the values differ.

## Main definitions

* `Window.names` — the names in a window.
* `Expression.names` — the variables of a tree.
* `Store.AgreeOn` — two stores that cannot be told apart by looking up some names.
* `Store.NilAlike` — two stores in which the same trees are nil.

## Main results

* `Expression.names_parseWithin` — the variables of a tree are names in its window.
* `Expression.parseWithin_eq_of_nilAlike` — **the tree of a window depends on what is nil only.**
* `Expression.parseWithin_congr`, `Window.eval_congr` — **the tree of a window and its value depend
  on the names in the window only.**
-/

namespace Scriptlet

namespace Window

/-- The names in a window. -/
def names (ts : Window) : List String := (ts.filter (·.kind = .identifier)).map (·.lexeme)

theorem mem_names_iff {ts : Window} {name : String} :
    name ∈ ts.names ↔ ∃ t ∈ ts, t.kind = .identifier ∧ t.lexeme = name := by
  simp [names, and_assoc]

theorem names_subset {us ts : Window} (h : us ⊆ ts) : us.names ⊆ ts.names := by
  intro name hname
  obtain ⟨t, ht, hkind, hlexeme⟩ := mem_names_iff.1 hname
  exact mem_names_iff.2 ⟨t, h ht, hkind, hlexeme⟩

end Window

namespace Store

/-- Two stores have the same values for some names, and the same of the names are unbound. -/
def AgreeOn (names : List String) (s s' : Store) : Prop :=
  ∀ name ∈ names, s.get? name = s'.get? name

instance (names : List String) (s s' : Store) : Decidable (AgreeOn names s s') :=
  inferInstanceAs (Decidable (∀ name ∈ names, s.get? name = s'.get? name))

namespace AgreeOn

variable {names : List String} {s s' : Store}

theorem mono (h : AgreeOn names s s') {others : List String} (hothers : others ⊆ names) :
    AgreeOn others s s' :=
  fun name hname => h name (hothers hname)

theorem value_eq (h : AgreeOn names s s') {name : String} (hname : name ∈ names) :
    s.value name = s'.value name := by
  rw [value, value, h name hname]

/-- Binding a name in both stores keeps them from being told apart. -/
theorem set (h : AgreeOn names s s') (name : String) (value : Value) :
    AgreeOn names (s.set name value) (s'.set name value) := by
  intro other hother
  by_cases hne : other = name
  · rw [hne, get?_set_self, get?_set_self]
  · rw [get?_set_of_ne s value hne, get?_set_of_ne s' value hne, h other hother]

end AgreeOn

end Store

/-! ### The variables of trees -/

namespace Expression

/-- The variables of a tree. -/
def names : Expression → List String
  | named name => [name]
  | unary _ operand => operand.names
  | binary _ left right => left.names ++ right.names
  | _ => []

/-- A tree has no variables but those of its atoms; a group has none at all. -/
theorem invariant_names (names : List String) : Invariant fun e => e.names ⊆ names where
  nil := List.nil_subset _
  grouped _ := List.nil_subset _
  unary _ _ h := h
  binary _ _ _ hleft hright := List.append_subset.2 ⟨hleft, hright⟩

/-- **The value of a tree depends on its variables only.** -/
theorem eval_congr {e : Expression} {s s' : Store} (h : s.AgreeOn e.names s') :
    e.eval s = e.eval s' := by
  induction e with
  | named name => exact h.value_eq List.mem_cons_self
  | unary op operand ih => rw [eval, eval, ih h]
  | binary op left right ihl ihr =>
    have hleft : s.AgreeOn left.names s' := h.mono (List.subset_append_left _ _)
    have hright : s.AgreeOn right.names s' := h.mono (List.subset_append_right _ _)
    rw [eval, eval, ihl hleft, ihr hright]
  | _ => rfl

end Expression

namespace Store

/-- The same trees are nil in two stores, of those with the given variables. -/
def NilAlike (names : List String) (s s' : Store) : Prop :=
  ∀ e : Expression, e.names ⊆ names → (e.eval s = .nil ↔ e.eval s' = .nil)

variable {names : List String} {s s' : Store}

theorem NilAlike.mono (h : NilAlike names s s') {others : List String} (hothers : others ⊆ names) :
    NilAlike others s s' :=
  fun e he => h e (List.Subset.trans he hothers)

/-- Where two stores cannot be told apart, the same trees are nil. -/
theorem AgreeOn.nilAlike (h : AgreeOn names s s') : NilAlike names s s' := by
  intro e he
  rw [Expression.eval_congr (h.mono he)]

end Store

namespace Expression

/-- The tree of a token has a variable where the token has a name. -/
theorem names_ofAtom (t : Token) : (ofAtom t).names ⊆ Window.names [t] := by
  intro name hname
  unfold ofAtom at hname
  split at hname
  · -- of all tokens only an identifier stands for a variable
    cases hnumber : t.number? .single with
    | none =>
      rw [hnumber] at hname
      cases hname
    | some x =>
      rw [hnumber] at hname
      cases hname
  · cases hname
  · cases hname
  · cases hname
  · rename_i hkind
    obtain rfl : name = t.lexeme := List.mem_singleton.1 hname
    exact Window.mem_names_iff.2 ⟨t, List.mem_cons_self, hkind, rfl⟩
  · cases hname

section

variable {s s' : Store} {signs : List UnaryOp} {primary : Expression}

theorem names_foldr_signed : (signs.foldr (signed s) primary).names ⊆ primary.names :=
  (invariant_names primary.names).foldr_signed (List.Subset.refl _) signs

/-- Whether a sign makes nil depends on whether its operand is nil. -/
theorem signed_congr {e : Expression} (h : e.eval s = .nil ↔ e.eval s' = .nil) (sign : UnaryOp) :
    signed s sign e = signed s' sign e := by
  simp only [signed, h]

/-- Whether signs make nil depends on what is nil behind them only. -/
theorem foldr_signed_congr (h : s.NilAlike primary.names s') :
    signs.foldr (signed s) primary = signs.foldr (signed s') primary := by
  induction signs with
  | nil => rfl
  | cons sign signs ih =>
    have hbehind : (signs.foldr (signed s') primary).eval s = .nil
        ↔ (signs.foldr (signed s') primary).eval s' = .nil := h _ names_foldr_signed
    rw [List.foldr_cons, List.foldr_cons, ih, signed_congr hbehind]

end

end Expression

/-! ### Operands and chains -/

namespace Operand

variable {s s' : Store} {room : Nat} {nested nested' : Nat → Window → Expression} {o : Operand}

/-- The tree of an operand depends on what is nil behind its signs only, if that of its group
does. -/
theorem tree_congr (h : s.NilAlike o.primary.tokens.names s')
    (hnested : ∀ signs inner, o.primary = .group inner → nested signs inner = nested' signs inner) :
    o.tree s room nested = o.tree s' room nested' := by
  unfold tree
  by_cases hroom : o.signs.length ≤ room
  · rw [if_pos hroom, if_pos hroom]
    -- what the signs stand in front of is the same tree in both stores
    cases hprimary : o.primary with
    | atom t =>
      rw [hprimary] at h
      exact Expression.foldr_signed_congr (h.mono (Expression.names_ofAtom t))
    | group inner =>
      dsimp only
      rw [hnested o.signs.length inner hprimary]
      exact Expression.foldr_signed_congr (h.mono (List.nil_subset _))
  · rw [if_neg hroom, if_neg hroom]

end Operand

/-! ### Windows -/

namespace Expression

/-- **The variables of a tree are names in its window.** -/
theorem names_parseWithin (s : Store) (levels : Nat) (ts : Window) :
    (parseWithin s levels ts).names ⊆ ts.names := by
  refine (invariant_names ts.names).parseWithin (fun t ht => ?_) levels
  have hsub : [t] ⊆ ts := List.cons_subset.2 ⟨ht, List.nil_subset _⟩
  exact List.Subset.trans (names_ofAtom t) (Window.names_subset hsub)

/-- **The tree of a window depends on what is nil only**, of the trees with names in the window.
The induction is on the levels: the inside of a group is parsed in fewer of them. -/
theorem parseWithin_eq_of_nilAlike {s s' : Store} {levels : Nat} {ts : Window}
    (h : s.NilAlike ts.names s') : parseWithin s levels ts = parseWithin s' levels ts := by
  induction levels using Nat.strongRecOn generalizing ts with
  | ind levels ih =>
    cases levels with
    | zero => rw [parseWithin, parseWithin]
    | succ room =>
      rw [parseWithin, parseWithin]
      cases hread : Chain.ofWindow? ts with
      | none => rfl
      | some c =>
        dsimp only
        split
        · refine Chain.tree_congr fun o ho => ?_
          -- an operand has no names but those of its tokens
          have hprimary : o.primary.tokens ⊆ ts :=
            (Chain.ofWindow?_eq_some_iff.1 hread).primary_subset ho
          have halike : s.NilAlike o.primary.tokens.names s' :=
            h.mono (Window.names_subset hprimary)
          refine Operand.tree_congr halike fun signs inner hinner => ih _ (by omega) ?_
          rwa [hinner] at halike
        · rfl

/-- **The tree of a window depends on the names in it only.** -/
theorem parseWithin_congr {s s' : Store} {levels : Nat} {ts : Window} (h : s.AgreeOn ts.names s') :
    parseWithin s levels ts = parseWithin s' levels ts :=
  parseWithin_eq_of_nilAlike h.nilAlike

end Expression

/-- **The value of a window depends on the names in it only.** -/
theorem Window.eval_congr {s s' : Store} {limit : Nat} {ts : Window} (h : s.AgreeOn ts.names s') :
    ts.eval s limit = ts.eval s' limit := by
  have htree : Expression.parse s limit ts = Expression.parse s' limit ts :=
    Expression.parseWithin_congr h
  have hnames : (Expression.parse s' limit ts).names ⊆ ts.names :=
    Expression.names_parseWithin s' (limit + 1) ts
  rw [eval, eval, htree, Expression.eval_congr (h.mono hnames)]

end Scriptlet
