import Scriptlet.Fault
import Scriptlet.Proofs.Window.Cut

/-!
# Structured programs

A structured program is a tree: statements in order, with the bodies of `if` statements inside of
them.  Its spellings are the windows that flatten it.  Nothing is fixed about the tokens but their
kinds and the names, and an expression may be any tokens that cannot be taken for the end of a
statement or for a part of the structure.

One thing cannot be spelled: an unbraced body in front of an `else` must not end in an `if` without
an `else`, for the `else` would go with that.

## Main definitions

* `Structured.Stmt`, `Structured.Body`, `Structured.Program` — the trees.
* `Structured.Body.program` — the statements that a body runs.
* `Structured.Stmt.dangles` — an `else` behind the statement would belong to it.
* `Structured.Program.Spells` — a window is a spelling of a program.

## Main results

* `Structured.Program.Spells.balanced` — the braces of a spelling match.
-/

namespace Scriptlet.Structured

open Window

/-! ### Trees -/

mutual

/-- A statement. -/
inductive Stmt
  /-- A declaration. -/
  | declare (name : String) (value : Window)
  /-- An assignment. -/
  | assign (name : String) (value : Window)
  /-- A print. -/
  | print (value : Window)
  /-- An `if` without an `else`. -/
  | ifThen (condition : Window) (body : Body)
  /-- An `if` with an `else`. -/
  | ifElse (condition : Window) (body alternative : Body)

/-- What stands behind a condition or an `else`. -/
inductive Body
  /-- Statements in braces. -/
  | braced (program : Program)
  /-- One statement without braces. -/
  | bare (s : Stmt)

/-- Statements in order. -/
inductive Program
  | nil
  | cons (s : Stmt) (rest : Program)

end

/-- The statements that a body runs. -/
def Body.program : Body → Program
  | braced p => p
  | bare s => .cons s .nil

/-- The statement is an `if`. -/
def Stmt.isIf : Stmt → Bool
  | ifThen _ _ | ifElse _ _ _ => true
  | _ => false

/-- What a body is behind an `else`: an unbraced `if` makes an `else if`. -/
def Body.branch : Body → Branch
  | braced _ => .otherwise
  | bare s => if s.isIf then .elseIf else .otherwise

mutual

/-- A statement dangles if it ends in an `if` without an `else`. -/
def Stmt.dangles : Stmt → Bool
  | .declare _ _ | .assign _ _ | .print _ => false
  | .ifThen _ _ => true
  | .ifElse _ _ alternative => alternative.dangles

/-- A body dangles if it is an unbraced statement that does. -/
def Body.dangles : Body → Bool
  | .braced _ => false
  | .bare s => s.dangles

end

/-! ### Spellings -/

/-- Tokens of an expression: at least one, and none that could end the statement or be part of the
structure around it. -/
structure Plain (ts : Window) : Prop where
  /-- There is a token. -/
  ne_nil : ts ≠ []
  /-- There is no semicolon and no brace. -/
  kinds : ∀ t ∈ ts, t.kind ≠ .semicolon ∧ t.kind ≠ .leftBrace ∧ t.kind ≠ .rightBrace

mutual

/-- The windows that spell a statement. -/
inductive Stmt.Spells : Stmt → Window → Prop
  | declare {v x e semicolon : Token} {value : Window} (hv : v.kind = .varWord)
      (hx : x.kind = .identifier) (he : e.kind = .equal) (hvalue : Plain value)
      (hsemi : semicolon.kind = .semicolon) :
      Stmt.Spells (.declare x.lexeme value) (v :: x :: e :: (value ++ [semicolon]))
  | assign {x e semicolon : Token} {value : Window} (hx : x.kind = .identifier)
      (he : e.kind = .equal) (hvalue : Plain value) (hsemi : semicolon.kind = .semicolon) :
      Stmt.Spells (.assign x.lexeme value) (x :: e :: (value ++ [semicolon]))
  | print {p semicolon : Token} {value : Window} (hp : p.kind = .printWord)
      (hvalue : Plain value) (hsemi : semicolon.kind = .semicolon) :
      Stmt.Spells (.print value) (p :: (value ++ [semicolon]))
  | ifThen {i : Token} {condition head ts : Window} {body : Body} (hi : i.kind = .ifWord)
      (hplain : Plain condition) (hhead : Encloses .leftParen .rightParen condition head)
      (hbody : body.Spells ts) : Stmt.Spells (.ifThen condition body) (i :: (head ++ ts))
  | ifElse {i e : Token} {condition head ts us : Window} {body alternative : Body}
      (hi : i.kind = .ifWord) (hplain : Plain condition)
      (hhead : Encloses .leftParen .rightParen condition head) (hbody : body.Spells ts)
      (hdangles : body.dangles = false) (he : e.kind = .elseWord)
      (halternative : alternative.Spells us) :
      Stmt.Spells (.ifElse condition body alternative) (i :: (head ++ (ts ++ e :: us)))

/-- The windows that spell a body. -/
inductive Body.Spells : Body → Window → Prop
  | braced {l r : Token} {ts : Window} {program : Program} (hl : l.kind = .leftBrace)
      (hr : r.kind = .rightBrace) (hprogram : program.Spells ts) :
      Body.Spells (.braced program) (l :: (ts ++ [r]))
  | bare {s : Stmt} {ts : Window} (hs : s.Spells ts) : Body.Spells (.bare s) ts

/-- The windows that spell a program. -/
inductive Program.Spells : Program → Window → Prop
  | nil : Program.Spells .nil []
  | cons {s : Stmt} {rest : Program} {ts us : Window} (hs : s.Spells ts) (hrest : rest.Spells us) :
      Program.Spells (.cons s rest) (ts ++ us)

end

/-! ### What begins and what matches in a spelling -/

/-- A spelling does not begin with `else`, whatever follows it. -/
theorem Stmt.Spells.not_startsWith {s : Stmt} {ts : Window} (h : s.Spells ts) (rest : Window) :
    ¬ StartsWith .elseWord (ts ++ rest) := by
  intro helse
  cases h with
  | declare hk | assign hk | print hk | ifThen hk | ifElse hk =>
    rw [List.cons_append, startsWith_cons_iff, hk] at helse
    cases helse

theorem Program.Spells.not_startsWith {p : Program} {ts : Window} (h : p.Spells ts) :
    ¬ StartsWith .elseWord ts := by
  cases h with
  | nil => exact not_startsWith_nil _
  | @cons _ _ _ us hs _ => exact hs.not_startsWith us

/-- Tokens without braces around those of an expression are balanced over braces. -/
theorem Plain.balanced_between {front ts behind : Window} (h : Plain ts)
    (hfront : ∀ t ∈ front, t.kind ≠ .leftBrace ∧ t.kind ≠ .rightBrace)
    (hbehind : ∀ t ∈ behind, t.kind ≠ .leftBrace ∧ t.kind ≠ .rightBrace) :
    Balanced .leftBrace .rightBrace (front ++ (ts ++ behind)) := by
  refine balanced_of_forall_ne fun t ht => ?_
  rcases List.mem_append.1 ht with ht | ht
  · exact hfront t ht
  · rcases List.mem_append.1 ht with ht | ht
    · exact (h.kinds t ht).2
    · exact hbehind t ht

/-- A condition in parentheses, with its `if`, is balanced over braces. -/
theorem Plain.balanced_head {i : Token} {condition head : Window} (h : Plain condition)
    (hi : i.kind = .ifWord) (hhead : Encloses .leftParen .rightParen condition head) :
    Balanced .leftBrace .rightBrace (i :: head) := by
  obtain ⟨-, l, r, hl, hr, rfl⟩ := hhead
  show Balanced .leftBrace .rightBrace ([i, l] ++ (condition ++ [r]))
  exact h.balanced_between (by simp [hi, hl]) (by simp [hr])

mutual

theorem Stmt.Spells.balanced : ∀ {s : Stmt} {ts : Window}, s.Spells ts →
    Balanced .leftBrace .rightBrace ts
  | _, _, @Stmt.Spells.declare v x e semicolon value hv hx he hvalue hsemi => by
    show Balanced .leftBrace .rightBrace ([v, x, e] ++ (value ++ [semicolon]))
    exact hvalue.balanced_between (by simp [hv, hx, he]) (by simp [hsemi])
  | _, _, @Stmt.Spells.assign x e semicolon value hx he hvalue hsemi => by
    show Balanced .leftBrace .rightBrace ([x, e] ++ (value ++ [semicolon]))
    exact hvalue.balanced_between (by simp [hx, he]) (by simp [hsemi])
  | _, _, @Stmt.Spells.print p semicolon value hp hvalue hsemi => by
    show Balanced .leftBrace .rightBrace ([p] ++ (value ++ [semicolon]))
    exact hvalue.balanced_between (by simp [hp]) (by simp [hsemi])
  | _, _, .ifThen hi hplain hhead hbody =>
    (hplain.balanced_head hi hhead).append hbody.balanced
  | _, _, @Stmt.Spells.ifElse _ e _ _ _ _ _ _ hi hplain hhead hbody _ he halternative => by
    have helse : Balanced .leftBrace .rightBrace [e] := balanced_of_forall_ne (by simp [he])
    have hbodies := hbody.balanced.append (helse.append halternative.balanced)
    exact (hplain.balanced_head hi hhead).append hbodies

theorem Body.Spells.balanced : ∀ {b : Body} {ts : Window}, b.Spells ts →
    Balanced .leftBrace .rightBrace ts
  | _, _, .braced hl hr hprogram => hprogram.balanced.enclose (by decide) hl hr
  | _, _, .bare hs => hs.balanced

/-- **The braces of a spelling match**, so that a block ends where it seems to. -/
theorem Program.Spells.balanced : ∀ {p : Program} {ts : Window}, p.Spells ts →
    Balanced .leftBrace .rightBrace ts
  | _, _, .nil => balanced_of_forall_ne (by simp)
  | _, _, .cons hs hrest => hs.balanced.append hrest.balanced

end

end Scriptlet.Structured
