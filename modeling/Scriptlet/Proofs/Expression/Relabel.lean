import Scriptlet.Proofs.Expression.Names
import Scriptlet.Proofs.Window.Relabel

/-!
# Expressions of relabelled windows

The tree of a relabelled window is the tree of the window with its variables renamed, and it has the
same value in a renamed store.  Two things can go wrong with a renaming.  Two names of which only
one is bound must not become one.  And a sign is dropped in front of a variable that reads `nil`, so
no other name may be changed into that one, nor that one into another.

A group is a text in the tree, and a renaming would have to change that text.  So there must be no
groups, unless no name is changed at all.

## Main definitions

* `Store.names`, `Store.rename` — the names that are bound, and a store with other names.
* `Expression.rename` — a tree with other names.
* `Faithful r names` — the renaming keeps the names apart, and `nil` apart from all others.
* `Window.Renamable r names` — the names of a window are among those, and no group shows them.

## Main results

* `Expression.eval_rename` — a renamed tree has the same value in a renamed store.
* `Chain.ofWindow?_map` — a relabelled window is a chain where the window is.
* `Expression.parseWithin_map` — **the tree of a relabelled window is the renamed tree.**
* `Window.eval_map` — **a relabelled window has the same value.**
-/

namespace Scriptlet

/-- A renaming that keeps the given names apart, and `nil` apart from all others of them. -/
structure Faithful (r : String → String) (names : List String) : Prop where
  /-- Different names stay different. -/
  injective : ∀ a ∈ names, ∀ b ∈ names, r a = r b → a = b
  /-- Only `nil` is called `nil`. -/
  nil_iff : ∀ a ∈ names, r a = "nil" ↔ a = "nil"

/-! ### Stores -/

namespace Store

/-- The names that are bound. -/
def names (s : Store) : List String := s.bindings.map (·.1)

/-- The store with the same values under other names. -/
def rename (r : String → String) (s : Store) : Store := ⟨s.bindings.map fun b => (r b.1, b.2)⟩

@[simp] theorem rename_id (s : Store) : s.rename id = s := by
  simp [rename]

variable {r : String → String} {names : List String} {s : Store}

/-- Names that are kept apart are found where they were. -/
theorem get?_rename (hr : Faithful r names) (hs : s.names ⊆ names) {name : String}
    (hname : name ∈ names) : (s.rename r).get? (r name) = s.get? name := by
  obtain ⟨bindings⟩ := s
  simp only [Store.names, rename, get?] at hs ⊢
  induction bindings with
  | nil => rfl
  | cons b rest ih =>
    obtain ⟨hb, hrest⟩ := List.cons_subset.1 hs
    have hsame : (r name == r b.1) = (name == b.1) := by
      by_cases heq : name = b.1
      · simp [heq]
      · have hne : r name ≠ r b.1 := fun h => heq (hr.injective name hname b.1 hb h)
        simp [heq, hne]
    rw [List.map_cons, List.lookup_cons, List.lookup_cons, hsame, ih hrest]

theorem value_rename (hr : Faithful r names) (hs : s.names ⊆ names) {name : String}
    (hname : name ∈ names) : (s.rename r).value (r name) = s.value name := by
  rw [value, value, get?_rename hr hs hname]

/-- Binding a renamed name in a renamed store is renaming after binding. -/
theorem set_rename (hr : Faithful r names) (hs : s.names ⊆ names) {name : String}
    (hname : name ∈ names) (value : Value) :
    (s.rename r).set (r name) value = (s.set name value).rename r := by
  obtain ⟨bindings⟩ := s
  simp only [Store.names, rename, set, Store.mk.injEq] at hs ⊢
  induction bindings with
  | nil => rfl
  | cons b rest ih =>
    obtain ⟨hb, hrest⟩ := List.cons_subset.1 hs
    rw [List.map_cons, bind, bind]
    by_cases heq : b.1 = name
    · rw [if_pos heq, if_pos (congrArg r heq)]
      rfl
    · have hne : r b.1 ≠ r name := fun h => heq (hr.injective b.1 hb name hname h)
      rw [if_neg heq, if_neg hne, ih hrest]
      rfl

theorem names_set (hs : s.names ⊆ names) {name : String} (hname : name ∈ names) (value : Value) :
    (s.set name value).names ⊆ names := by
  obtain ⟨bindings⟩ := s
  simp only [Store.names, set] at hs ⊢
  induction bindings with
  | nil => exact List.cons_subset.2 ⟨hname, List.nil_subset _⟩
  | cons b rest ih =>
    obtain ⟨hb, hrest⟩ := List.cons_subset.1 hs
    rw [bind]
    split
    · exact List.cons_subset.2 ⟨hname, hrest⟩
    · exact List.cons_subset.2 ⟨hb, ih hrest⟩

end Store

/-! ### Trees -/

namespace Expression

/-- The tree with its variables renamed. -/
def rename (r : String → String) : Expression → Expression
  | named name => named (r name)
  | unary op operand => unary op (operand.rename r)
  | binary op left right => binary op (left.rename r) (right.rename r)
  | e => e

@[simp] theorem rename_id (e : Expression) : e.rename id = e := by
  induction e with
  | unary op operand ih => rw [rename, ih]
  | binary op left right ihl ihr => rw [rename, ihl, ihr]
  | _ => rfl

variable {r : String → String} {names : List String} {s : Store} {e : Expression}

/-- **A renamed tree has the same value in a renamed store.** -/
theorem eval_rename (hr : Faithful r names) (hs : s.names ⊆ names) (he : e.names ⊆ names) :
    (e.rename r).eval (s.rename r) = e.eval s := by
  induction e with
  | named name => exact Store.value_rename hr hs (he List.mem_cons_self)
  | unary op operand ih => rw [rename, eval, eval, ih he]
  | binary op left right ihl ihr =>
    obtain ⟨hleft, hright⟩ := List.append_subset.1 he
    rw [rename, eval, eval, ihl hleft, ihr hright]
  | _ => rfl

/-- A renamed tree reads `nil` where the tree does: an operator puts a parenthesis in front. -/
theorem render_rename_eq_nil_iff (hr : Faithful r names) (he : e.names ⊆ names) :
    (e.rename r).render = "nil" ↔ e.render = "nil" := by
  have hparen (text : String) : "(" ++ text ≠ "nil" := by
    intro h
    have hhead := congrArg String.toList h
    simp at hhead
  cases e with
  | named name => exact hr.nil_iff name (he List.mem_cons_self)
  | unary op operand =>
    simp only [rename, render, String.append_assoc, hparen]
  | binary op left right =>
    simp only [rename, render, String.append_assoc, hparen]
  | _ => exact Iff.rfl

theorem signed_rename (hr : Faithful r names) (hs : s.names ⊆ names) (he : e.names ⊆ names)
    (sign : UnaryOp) : signed (s.rename r) sign (e.rename r) = (signed s sign e).rename r := by
  simp only [signed, eval_rename hr hs he, render_rename_eq_nil_iff hr he]
  split <;> rfl

theorem foldr_signed_rename (hr : Faithful r names) (hs : s.names ⊆ names)
    (he : e.names ⊆ names) (signs : List UnaryOp) :
    signs.foldr (signed (s.rename r)) (e.rename r) = (signs.foldr (signed s) e).rename r := by
  induction signs with
  | nil => rfl
  | cons sign signs ih =>
    have hbehind : (signs.foldr (signed s) e).names ⊆ names :=
      List.Subset.trans names_foldr_signed he
    rw [List.foldr_cons, List.foldr_cons, ih, signed_rename hr hs hbehind]

theorem ofAtom_map {f : Token → Token} (hf : Token.Relabels f r) (t : Token) :
    ofAtom (f t) = (ofAtom t).rename r := by
  by_cases ht : t.kind = .identifier
  · unfold ofAtom
    rw [hf.kind, ht]
    exact congrArg named (hf.name t ht)
  · -- the value of any other token is in its kind or in a text that stays
    have hlexeme : (f t).lexeme = t.lexeme := hf.other t ht
    unfold ofAtom Token.number? Token.quoted
    rw [hf.kind, hlexeme]
    split
    · cases Binary.ofText? .single t.lexeme <;> rfl
    · rfl
    · rfl
    · rfl
    · exact absurd ‹_› ht
    · rfl

end Expression

/-! ### Operands and chains -/

/-- What stands behind the signs of an operand, relabelled. -/
def Primary.map (f : Token → Token) : Primary → Primary
  | atom t => atom (f t)
  | group inner => group (inner.map f)

/-- An operand with its tokens relabelled. -/
def Operand.map (f : Token → Token) (o : Operand) : Operand := ⟨o.signs, o.primary.map f⟩

/-- A chain with its operands relabelled. -/
def Chain.map (f : Token → Token) (c : Chain) : Chain :=
  ⟨c.first.map f, c.rest.map (Prod.map id (Operand.map f))⟩

/-- The steps of a chain, read without a measure. -/
theorem Chain.rest?_cons (t : Token) (ts : Window) :
    rest? (t :: ts) = (BinaryOp.ofKind? t.kind).bind fun op =>
      (Operand.read? ts).bind fun p => (rest? p.2).map ((op, p.1) :: ·) := by
  rw [rest?]
  split
  · rename_i hop
    rw [hop]
    rfl
  · rename_i op hop
    rw [hop, Option.bind_some]
    split
    · rename_i hread
      rw [hread]
      rfl
    · rename_i o rest hread
      simp only [hread, Option.bind_some]

section

variable {f : Token → Token} (hf : ∀ t, (f t).kind = t.kind)

include hf

theorem Operand.read?_map (ts : Window) :
    read? (ts.map f) = (read? ts).map (Prod.map (map f) (List.map f)) := by
  induction ts with
  | nil => rfl
  | cons t ts ih =>
    rw [List.map_cons, read?, read?, hf t]
    split
    · rw [ih, Option.map_map, Option.map_map]
      rfl
    · split
      · rw [← List.map_cons, Window.delimited?_map hf, Option.map_map, Option.map_map]
        rfl
      · split
        · rfl
        · rfl

theorem Chain.rest?_map (ts : Window) :
    rest? (ts.map f) = (rest? ts).map (List.map (Prod.map id (Operand.map f))) := by
  -- each call of the reader takes an operator and an operand off the window
  induction hn : ts.length using Nat.strongRecOn generalizing ts with
  | ind n ih =>
    cases ts with
    | nil =>
      rw [List.map_nil, rest?]
      rfl
    | cons t us =>
      rw [List.map_cons, rest?_cons, rest?_cons, hf t, Operand.read?_map hf]
      cases BinaryOp.ofKind? t.kind with
      | none => rfl
      | some op =>
        cases hread : Operand.read? us with
        | none => rfl
        | some p =>
          have hlt : p.2.length < n := by
            have hbehind := (Operand.behind_of_read? hread).length_lt
            rw [List.length_cons] at hn
            omega
          simp only [Option.map_some, Option.bind_some, Prod.map, ih _ hlt p.2 rfl, Option.map_map]
          rfl

/-- **A relabelled window is a chain where the window is**: the chain with its tokens relabelled. -/
theorem Chain.ofWindow?_map (ts : Window) :
    ofWindow? (ts.map f) = (ofWindow? ts).map (map f) := by
  unfold ofWindow?
  rw [Operand.read?_map hf]
  cases Operand.read? ts with
  | none => rfl
  | some p =>
    obtain ⟨o, rest⟩ := p
    simp only [Option.map_some, Prod.map, Chain.rest?_map hf, Option.map_map]
    rfl

end

section

variable {f : Token → Token} {r : String → String} {names : List String} {s : Store}

/-- The tree of a relabelled operand is the renamed tree, if its group stays as it is. -/
theorem Operand.tree_map (hf : Token.Relabels f r) (hr : Faithful r names) (hs : s.names ⊆ names)
    {o : Operand} (ho : o.primary.tokens.names ⊆ names) {room : Nat}
    {nested nested' : Nat → Window → Expression}
    (hnested : ∀ inner, o.primary = .group inner →
      nested' o.signs.length (inner.map f) = nested o.signs.length inner) :
    (o.map f).tree (s.rename r) room nested' = (o.tree s room nested).rename r := by
  obtain ⟨signs, primary⟩ := o
  dsimp only at ho hnested
  unfold tree map
  dsimp only
  split
  · cases primary with
    | atom t =>
      have hatom : (Expression.ofAtom t).names ⊆ names :=
        List.Subset.trans (Expression.names_ofAtom t) ho
      dsimp only [Primary.map]
      rw [Expression.ofAtom_map hf]
      exact Expression.foldr_signed_rename hr hs hatom signs
    | group inner =>
      dsimp only [Primary.map]
      rw [hnested inner rfl]
      -- the text of a group has no variables, whatever it says
      have hgroup : (Expression.grouped (nested signs.length inner)).names ⊆ names :=
        List.nil_subset names
      exact Expression.foldr_signed_rename hr hs hgroup signs
  · rfl

theorem Chain.tree_map {c : Chain} {operand operand' : Operand → Expression}
    (h : ∀ o ∈ c.operands, operand' (o.map f) = (operand o).rename r) :
    (c.map f).tree operand' = (c.tree operand).rename r := by
  obtain ⟨first, rest⟩ := c
  obtain ⟨hfirst, hrest⟩ := List.forall_mem_cons.1 h
  clear h
  unfold tree map
  dsimp only at hfirst hrest ⊢
  rw [hfirst]
  -- the tree grows to the right, so what is on the left of the next operator is generalised
  generalize operand first = left
  induction rest generalizing left with
  | nil => rfl
  | cons step rest ih =>
    obtain ⟨hstep, hrest⟩ := List.forall_mem_cons.1 hrest
    rw [List.map_cons, List.foldl_cons, List.foldl_cons, ← ih hrest]
    simp only [Prod.map, hstep, id, Expression.rename]

end

/-! ### Groups -/

open Window

/-- An operand in a groupless window ends in an atom. -/
theorem Operand.Spells.ne_group {o : Operand} {ts : Window} (h : o.Spells ts) (hts : Groupless ts)
    (inner : Window) : o.primary ≠ .group inner := by
  induction h with
  | atom => exact fun h => by cases h
  | group h => exact absurd h.startsWith hts.first
  | @sign t u signs primary us ht h ih =>
    refine ih (hts.tail fun hif => ?_)
    rw [hif] at ht
    cases ht

theorem Chain.Steps.ne_group {steps : List (BinaryOp × Operand)} {ts : Window} (h : Steps steps ts)
    (hts : ts.IsChain OpensBehindIf) {step : BinaryOp × Operand} (hstep : step ∈ steps)
    (inner : Window) : step.2.primary ≠ .group inner := by
  induction h with
  | nil => cases hstep
  | @cons t op o steps us vs ht ho hsteps ih =>
    have hparen : t.kind ≠ .leftParen := fun h => by
      rw [h] at ht
      cases ht
    have hif : t.kind ≠ .ifWord := fun h => by
      rw [h] at ht
      cases ht
    rcases List.mem_cons.1 hstep with rfl | hmem
    · exact ho.ne_group ((groupless_cons hparen hts).tail hif).front inner
    · have hvs : vs <:+: t :: (us ++ vs) := ⟨t :: us, [], by simp⟩
      exact ih (OpensBehindIf.chain_of_isInfix hts hvs) hmem

/-- **The chain of a groupless window has no groups**: its operands begin the window or stand behind
operators. -/
theorem Chain.Spells.ne_group {c : Chain} {ts : Window} (h : c.Spells ts) (hts : Groupless ts)
    {o : Operand} (ho : o ∈ c.operands) (inner : Window) : o.primary ≠ .group inner := by
  cases h with
  | @mk first steps us vs hfirst hsteps =>
    rcases List.mem_cons.1 ho with rfl | hmem
    · exact hfirst.ne_group hts.front inner
    · obtain ⟨step, hstep, rfl⟩ := List.mem_map.1 hmem
      have hvs : vs <:+: us ++ vs := (List.suffix_append us vs).isInfix
      exact hsteps.ne_group (OpensBehindIf.chain_of_isInfix hts.next hvs) hstep inner

/-! ### Windows -/

/-- The names of the window are among the given ones, and it has no group in which a changed name
could be seen. -/
structure Window.Renamable (r : String → String) (names : List String) (ts : Window) : Prop where
  /-- The names are among the given ones. -/
  names_subset : ts.names ⊆ names
  /-- There are no groups, or no name is changed. -/
  groups : r = id ∨ Groupless ts

section

variable {f : Token → Token} {r : String → String} {names : List String} {s : Store}

/-- What stands behind anything but an `if` in a window is renamable with it. -/
theorem Window.Renamable.behind {front ts : Window} {e : Token}
    (h : Renamable r names (front ++ e :: ts)) (he : e.kind ≠ .ifWord) : ts.Renamable r names where
  names_subset := by
    have hsub : ts ⊆ front ++ e :: ts :=
      fun t ht => List.mem_append_right front (List.mem_cons_of_mem e ht)
    exact List.Subset.trans (Window.names_subset hsub) h.names_subset
  groups := h.groups.imp_right fun hgroups => hgroups.behind he

/-- **The tree of a relabelled window is the renamed tree.**  The induction is on the levels: where
no name is changed, the inside of a group is parsed in fewer of them. -/
theorem Expression.parseWithin_map (hf : Token.Relabels f r) (hr : Faithful r names)
    (hs : s.names ⊆ names) {ts : Window} (hts : ts.Renamable r names) (levels : Nat) :
    parseWithin (s.rename r) levels (ts.map f) = (parseWithin s levels ts).rename r := by
  induction levels using Nat.strongRecOn generalizing ts with
  | ind levels ih =>
    cases levels with
    | zero =>
      rw [parseWithin, parseWithin]
      rfl
    | succ room =>
      rw [parseWithin, parseWithin, Chain.ofWindow?_map hf.kind]
      cases hread : Chain.ofWindow? ts with
      | none => rfl
      | some c =>
        have hc : c.Spells ts := Chain.ofWindow?_eq_some_iff.1 hread
        have hlength : (c.map f).rest.length = c.rest.length := List.length_map _
        dsimp only [Option.map_some]
        rw [hlength]
        split
        · refine Chain.tree_map fun o ho => ?_
          have hprimary : o.primary.tokens.names ⊆ ts.names :=
            Window.names_subset (hc.primary_subset ho)
          refine Operand.tree_map hf hr hs (List.Subset.trans hprimary hts.names_subset) ?_
          intro inner hinner
          -- a window with groups keeps its names; else there is no group to look at
          rcases hts.groups with rfl | hgroups
          · rw [hinner] at hprimary
            have hrenamable : inner.Renamable id names :=
              ⟨List.Subset.trans hprimary hts.names_subset, .inl rfl⟩
            rw [ih _ (by omega) hrenamable, rename_id]
          · exact absurd hinner (hc.ne_group hgroups ho inner)
        · rfl

/-- **A relabelled window has the same value**, in a store with the names changed. -/
theorem Window.eval_map (hf : Token.Relabels f r) (hr : Faithful r names) (hs : s.names ⊆ names)
    {ts : Window} (hts : ts.Renamable r names) (limit : Nat) :
    Window.eval (s.rename r) limit (ts.map f) = Window.eval s limit ts := by
  have htree : (Expression.parse s limit ts).names ⊆ names :=
    List.Subset.trans (Expression.names_parseWithin s (limit + 1) ts) hts.names_subset
  rw [eval, Expression.parse, Expression.parseWithin_map hf hr hs hts]
  exact Expression.eval_rename hr hs htree

end

end Scriptlet
