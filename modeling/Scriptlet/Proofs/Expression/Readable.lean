import Scriptlet.Proofs.Expression.Invariant
import Scriptlet.Proofs.Number.ReadBack
import Scriptlet.Proofs.Token.Literal

/-!
# Rendered expressions read back

The text of a tree is not always enough to know the tree.  A string is rendered without quotes, so
it may look like anything, and a variable may have the name that an infinite number is rendered as.
Where neither occurs, a tree can be read back from its text, also when more text stands behind it.

In a text that is read back there are leaves, and parentheses around a first word and one or two
parts.  The word is an operator or `group`, and whether there are one or two parts can be seen
behind the first one: that tells the two minuses apart.  A leaf ends at a space or a parenthesis.
Those that begin with a digit are numbers; the others are words, of which four have a meaning of
their own and the rest are variables.

A group is a string in a tree, made of its rendered inside.  Two groups of legible windows are equal
in the language just if their insides have the same tree.

## Main definitions

* `Expression.Readable` — the trees that can be read back.
* `Expression.read?` — the tree that the front of a text is, and the rest of the text.
* `Window.Legible` — tokens of source texts, no strings among them, nor variables named `inf`.

## Main results

* `Expression.read?_render` — **a readable tree is read back from its text.**
* `Expression.readable_parseWithin` — the tree of a legible window is readable.
* `Window.uniquely_readable` — **legible windows with equal texts have equal trees.**
-/

namespace Scriptlet

/-! ### Readable trees -/

namespace Expression

/-- A leaf that can be told by its text. -/
inductive Leaf : Expression → Prop
  /-- A number without a sign. -/
  | number {code : Nat} {hcode : code ≤ BinaryFormat.single.infinity} :
      Leaf (number (.signed false code hcode))
  | bool (b : Bool) : Leaf (bool b)
  | nil : Leaf nil
  /-- A variable that is not named like a reserved word or like infinity. -/
  | named {name : String} (hword : Kind.IsWord name.toList)
      (hnone : ∀ kind : Kind, kind.word? ≠ some name) (hinf : name ≠ "inf") : Leaf (named name)

/-- A tree that can be read back from its text: a string in it is a group around such a tree. -/
inductive Readable : Expression → Prop
  | leaf {e : Expression} (h : Leaf e) : Readable e
  | grouped {inner : Expression} (h : Readable inner) : Readable (grouped inner)
  | unary (op : UnaryOp) {operand : Expression} (h : Readable operand) : Readable (unary op operand)
  | binary (op : BinaryOp) {left right : Expression} (hleft : Readable left)
      (hright : Readable right) : Readable (binary op left right)

end Expression

/-! ### Reading symbols -/

/-- The unary operator with a symbol. -/
def UnaryOp.ofSymbol? : String → Option UnaryOp
  | "-" => some negate
  | "!" => some not
  | _ => none

/-- The binary operator with a symbol. -/
def BinaryOp.ofSymbol? : String → Option BinaryOp
  | "+" => some add
  | "-" => some subtract
  | "*" => some multiply
  | "/" => some divide
  | "==" => some equal
  | "!=" => some notEqual
  | "<" => some less
  | "<=" => some lessEqual
  | ">" => some greater
  | ">=" => some greaterEqual
  | "and" => some and
  | "or" => some or
  | _ => none

@[simp] theorem UnaryOp.ofSymbol?_symbol (op : UnaryOp) : ofSymbol? op.symbol = some op := by
  cases op <;> rfl

@[simp] theorem BinaryOp.ofSymbol?_symbol (op : BinaryOp) : ofSymbol? op.symbol = some op := by
  cases op <;> rfl

theorem UnaryOp.symbol_ne_group (op : UnaryOp) : op.symbol ≠ "group" := by
  cases op <;> decide

theorem UnaryOp.space_notMem_symbol (op : UnaryOp) : ' ' ∉ op.symbol.toList := by
  cases op <;> decide

theorem BinaryOp.space_notMem_symbol (op : BinaryOp) : ' ' ∉ op.symbol.toList := by
  cases op <;> decide

namespace Expression

/-! ### Reading trees -/

/-- The characters of leaves: all but the space and the parentheses. -/
def isLeafPart (c : Char) : Bool := c != ' ' && c != '(' && c != ')'

/-- The leaf that a text is. -/
def ofLeaf (text : List Char) : Expression :=
  if text = ['t', 'r', 'u', 'e'] then bool true
  else if text = ['f', 'a', 'l', 's', 'e'] then bool false
  else if text = ['n', 'i', 'l'] then nil
  else if text = ['i', 'n', 'f'] ∨ (text.head?.any Char.isDigit) then
    (Binary.ofText? .single (String.ofList text)).elim nil number
  else named (String.ofList text)

/-- The tree that a first word and one part behind it are. -/
def ofPart? (word : String) (part : Expression) : Option Expression :=
  if word = "group" then some (grouped part) else (UnaryOp.ofSymbol? word).map (unary · part)

/-- The tree that the front of a text is, and the rest of the text.  The first argument limits the
nesting. -/
def read? : Nat → List Char → Option (Expression × List Char)
  | 0, _ => none
  | levels + 1, '(' :: cs =>
    let word := String.ofList (cs.takeWhile (· ≠ ' '))
    match read? levels ((cs.dropWhile (· ≠ ' ')).drop 1) with
    | some (first, ')' :: rest) => (ofPart? word first).map (·, rest)
    | some (first, ' ' :: cs) =>
      match read? levels cs with
      | some (second, ')' :: rest) =>
        (BinaryOp.ofSymbol? word).map fun op => (binary op first second, rest)
      | _ => none
    | _ => none
  | _ + 1, cs => some (ofLeaf (cs.takeWhile isLeafPart), cs.dropWhile isLeafPart)

/-- What stands behind a tree in a text: nothing, a space or a closing parenthesis. -/
def Follows (rest : List Char) : Prop := ∀ c cs, rest = c :: cs → c = ' ' ∨ c = ')'

theorem follows_nil : Follows [] := fun _ _ h => by cases h

theorem follows_space (cs : List Char) : Follows (' ' :: cs) :=
  fun _ _ h => .inl (List.cons.inj h).1.symm

theorem follows_paren (cs : List Char) : Follows (')' :: cs) :=
  fun _ _ h => .inr (List.cons.inj h).1.symm

section

variable {levels : Nat} {word : String} {cs rest : List Char} {first second : Expression}

theorem takeWhile_word (hword : ' ' ∉ word.toList) (cs : List Char) :
    (word.toList ++ ' ' :: cs).takeWhile (· ≠ ' ') = word.toList ∧
      ((word.toList ++ ' ' :: cs).dropWhile (· ≠ ' ')).drop 1 = cs := by
  have hfits : ∀ c ∈ word.toList, decide (c ≠ ' ') = true := by
    intro c hc
    rw [decide_eq_true_eq]
    rintro rfl
    exact hword hc
  have hend : ¬ Begins (fun c => decide (c ≠ ' ')) (' ' :: cs) := by simp
  obtain ⟨htake, hdrop⟩ := takeWhile_append_of_not_begins hfits hend
  exact ⟨htake, by rw [hdrop]; rfl⟩

theorem read?_one (hword : ' ' ∉ word.toList)
    (hfirst : read? levels cs = some (first, ')' :: rest)) :
    read? (levels + 1) ('(' :: (word.toList ++ ' ' :: cs))
      = (ofPart? word first).map (·, rest) := by
  obtain ⟨htake, hdrop⟩ := takeWhile_word hword cs
  rw [read?, htake, hdrop, hfirst, String.ofList_toList]
  rfl

theorem read?_two {behind : List Char} (hword : ' ' ∉ word.toList)
    (hfirst : read? levels cs = some (first, ' ' :: behind))
    (hsecond : read? levels behind = some (second, ')' :: rest)) :
    read? (levels + 1) ('(' :: (word.toList ++ ' ' :: cs))
      = (BinaryOp.ofSymbol? word).map fun op => (binary op first second, rest) := by
  obtain ⟨htake, hdrop⟩ := takeWhile_word hword cs
  simp only [read?, htake, hdrop, hfirst, hsecond, String.ofList_toList]

/-- A text of the characters of leaves is read as a leaf. -/
theorem read?_leaf (hcs : ∀ c ∈ cs, isLeafPart c = true) (hrest : Follows rest) :
    read? (levels + 1) (cs ++ rest) = some (ofLeaf cs, rest) := by
  have hend : ¬ Begins isLeafPart rest := by
    rintro ⟨c, rest, rfl, hc⟩
    rcases hrest c rest rfl with rfl | rfl
    · cases hc
    · cases hc
  -- neither the leaf nor what follows it begins with a parenthesis
  have hopen (cs' : List Char) : cs ++ rest ≠ '(' :: cs' := by
    intro h
    cases cs with
    | nil =>
      rcases hrest _ _ h with h | h
      · cases h
      · cases h
    | cons c cs =>
      obtain ⟨rfl, -⟩ := List.cons.inj h
      cases hcs '(' List.mem_cons_self
  obtain ⟨htake, hdrop⟩ := takeWhile_append_of_not_begins hcs hend
  unfold read?
  split
  · rename_i heq
    cases heq
  · rename_i heq
    exact absurd heq (hopen _)
  · rw [htake, hdrop]

/-- A text in parentheses is longer than what stands behind its first word. -/
theorem room {text : List Char} (htext : text = '(' :: (word.toList ++ ' ' :: cs))
    (hlevels : text.length ≤ levels) : ∃ n, levels = n + 1 ∧ cs.length ≤ n := by
  rw [htext, List.length_cons, List.length_append, List.length_cons] at hlevels
  exact ⟨levels - 1, by omega, by omega⟩

end

/-! ### Leaves -/

/-- A sort of characters without the space and the parentheses is one of leaves. -/
theorem isLeafPart_of_sort {p : Char → Bool} (hspace : p ' ' = false) (hopening : p '(' = false)
    (hclosing : p ')' = false) {c : Char} (h : p c = true) : isLeafPart c = true := by
  have hne {d : Char} (hd : p d = false) : c ≠ d := by
    rintro rfl
    rw [hd] at h
    cases h
  simp only [isLeafPart, bne_iff_ne.2 (hne hspace), bne_iff_ne.2 (hne hopening),
    bne_iff_ne.2 (hne hclosing), Bool.and_self]

theorem isWordPart_of_isWord {text : List Char} (h : Kind.IsWord text) :
    ∀ c ∈ text, isWordPart c = true := by
  obtain ⟨c, cs, rfl, hc, hcs⟩ := h
  intro d hd
  rcases List.mem_cons.1 hd with rfl | hd
  · refine isWordPart_iff.2 (hc.imp_left fun halpha => ?_)
    rw [Char.isAlphanum, halpha, Bool.true_or]
  · exact isWordPart_iff.2 (hcs d hd)

/-- The text of a leaf has no spaces or parentheses. -/
theorem Leaf.all_render {e : Expression} (h : Leaf e) : e.render.toList.all isLeafPart = true := by
  cases h with
  | number =>
    exact Number.all_plainWith (fun _ => isLeafPart_of_sort rfl rfl rfl) (by decide)
      (fun negative => by cases negative <;> decide) _
  | bool b => cases b <;> decide
  | nil => decide
  | named hword =>
    refine List.all_eq_true.2 fun c hc => ?_
    exact isLeafPart_of_sort rfl rfl rfl (isWordPart_of_isWord hword c hc)

theorem ofLeaf_of_begins {text : List Char} (h : Begins Char.isDigit text) :
    ofLeaf text = (Binary.ofText? .single (String.ofList text)).elim nil number := by
  obtain ⟨c, cs, rfl, hc⟩ := h
  have hword {d : Char} {ds : List Char} (hd : d.isDigit = false) : c :: cs ≠ d :: ds := by
    intro heq
    rw [(List.cons.inj heq).1, hd] at hc
    cases hc
  rw [ofLeaf, if_neg (hword rfl), if_neg (hword rfl), if_neg (hword rfl), if_pos (.inr hc)]

theorem ofLeaf_inf : ofLeaf ['i', 'n', 'f'] = number (.infinite false) := by
  rw [ofLeaf, if_neg (by decide), if_neg (by decide), if_neg (by decide), if_pos (.inl rfl)]
  rfl

/-- A word that is not reserved is a variable. -/
theorem ofLeaf_of_isWord {name : String} (hword : Kind.IsWord name.toList)
    (hnone : ∀ kind : Kind, kind.word? ≠ some name) (hinf : name ≠ "inf") :
    ofLeaf name.toList = named name := by
  have hne {text : List Char} (h : name ≠ String.ofList text) : name.toList ≠ text := by
    rintro rfl
    exact h String.ofList_toList.symm
  -- a word begins with a letter, so it is no number
  have hdigit : ¬ (name.toList.head?.any Char.isDigit) = true := by
    obtain ⟨c, cs, hname, hc, -⟩ := hword
    rw [hname]
    intro hdigit
    have hstart := Kind.Opening.isWordStart_of_isDigit hdigit
    rw [isWordStart_iff.2 hc] at hstart
    cases hstart
  rw [ofLeaf, if_neg (hne fun h => hnone .trueWord (congrArg some h.symm)),
    if_neg (hne fun h => hnone .falseWord (congrArg some h.symm)),
    if_neg (hne fun h => hnone .nilWord (congrArg some h.symm)),
    if_neg (not_or.2 ⟨hne hinf, hdigit⟩), String.ofList_toList]

theorem ofLeaf_bare {code : Nat} (hcode : code ≤ BinaryFormat.single.infinity) :
    ofLeaf (Number.bare (.signed false code hcode)).toList = number (.signed false code hcode) := by
  by_cases hinfinity : code = BinaryFormat.single.infinity
  · subst hinfinity
    have htext : (Number.bare (.infinite false)).toList = ['i', 'n', 'f'] := by decide
    exact (congrArg ofLeaf htext).trans ofLeaf_inf
  · have htext : Number.bare (.signed false code hcode)
        = String.ofList (BinaryFormat.single.shortest code).plain :=
      (if_neg hinfinity).trans String.empty_append
    have hbegins : Begins Char.isDigit (Number.bare (.signed false code hcode)).toList := by
      rw [htext, String.toList_ofList]
      exact Decimal.begins_plain _
    rw [ofLeaf_of_begins hbegins, String.ofList_toList, Number.ofText?_bare, Option.elim_some]

/-- **A leaf is told by its text.** -/
theorem Leaf.ofLeaf_render {e : Expression} (h : Leaf e) : ofLeaf e.render.toList = e := by
  cases h with
  | @number code hcode => exact ofLeaf_bare hcode
  | bool b => cases b <;> rfl
  | nil => rfl
  | named hword hnone hinf => exact ofLeaf_of_isWord hword hnone hinf

/-! ### Readable trees are read -/

/-- **A readable tree is read back from its text**, whatever stands behind it. -/
theorem read?_render {e : Expression} (h : Readable e) {levels : Nat} {rest : List Char}
    (hlevels : (e.render.toList ++ rest).length ≤ levels) (hrest : Follows rest) :
    read? (levels + 1) (e.render.toList ++ rest) = some (e, rest) := by
  -- each pair of parentheses takes one level and has characters of its own
  induction h generalizing levels rest with
  | leaf h => rw [read?_leaf (List.all_eq_true.1 h.all_render) hrest, h.ofLeaf_render]
  | @grouped inner h ih =>
    have htext : (grouped inner).render.toList ++ rest
        = '(' :: ("group".toList ++ ' ' :: (inner.render.toList ++ ')' :: rest)) := by
      simp [grouped, render]
    obtain ⟨levels, rfl, hinner⟩ := room htext hlevels
    rw [htext, read?_one (by decide) (ih hinner (follows_paren rest))]
    rfl
  | @unary op operand h ih =>
    have htext : (unary op operand).render.toList ++ rest
        = '(' :: (op.symbol.toList ++ ' ' :: (operand.render.toList ++ ')' :: rest)) := by
      simp [render]
    obtain ⟨levels, rfl, hoperand⟩ := room htext hlevels
    rw [htext, read?_one op.space_notMem_symbol (ih hoperand (follows_paren rest)), ofPart?,
      if_neg op.symbol_ne_group, UnaryOp.ofSymbol?_symbol]
    rfl
  | @binary op left right hleft hright ihl ihr =>
    have htext : (binary op left right).render.toList ++ rest
        = '(' :: (op.symbol.toList
            ++ ' ' :: (left.render.toList ++ ' ' :: (right.render.toList ++ ')' :: rest))) := by
      simp [render]
    obtain ⟨levels, rfl, hroom⟩ := room htext hlevels
    have hsecond : (right.render.toList ++ ')' :: rest).length ≤ levels := by
      rw [List.length_append, List.length_cons] at hroom
      omega
    rw [htext, read?_two op.space_notMem_symbol (ihl hroom (follows_space _))
      (ihr hsecond (follows_paren rest)), BinaryOp.ofSymbol?_symbol]
    rfl

/-- **Readable trees with the same text are the same.** -/
theorem Readable.eq_of_render_eq {e e' : Expression} (h : Readable e) (h' : Readable e')
    (heq : e.render = e'.render) : e = e' := by
  have hread := read?_render h (Nat.le_refl _) follows_nil
  rw [heq, read?_render h' (Nat.le_refl _) follows_nil] at hread
  exact (Prod.mk.inj (Option.some.inj hread)).1.symm

/-- Groups around readable trees are equal in the language just if the trees are the same. -/
theorem equals_grouped_iff {e e' : Expression} (h : Readable e) (h' : Readable e')
    (s s' : Store) : ((grouped e).eval s).equals ((grouped e').eval s') = true ↔ e = e' := by
  have hequals : ((grouped e).eval s).equals ((grouped e').eval s') = true
      ↔ (grouped e).render = (grouped e').render := beq_iff_eq
  rw [hequals]
  constructor
  · intro heq
    -- the texts of the groups are equal, so those of the insides are
    have hinner : (grouped e) = grouped e' :=
      (Readable.grouped h).eq_of_render_eq (.grouped h') heq
    have htext := Expression.string.inj hinner
    rw [String.append_left_inj, String.append_right_inj] at htext
    exact h.eq_of_render_eq h' htext
  · rintro rfl
    rfl

end Expression

/-! ### Legible windows -/

/-- Tokens of source texts, no strings among them, nor variables named like an infinite number.  A
variable may be named `NaN`, for no number of a source text is rendered so. -/
structure Window.Legible (ts : Window) : Prop where
  /-- Every token is one of a source text. -/
  scanned : ∀ t ∈ ts, ∃ text, t ∈ (Scan.ofText text).tokens
  /-- There is no string. -/
  noString : ∀ t ∈ ts, t.kind ≠ .string
  /-- There is no variable named like an infinite number. -/
  noInfinity : ∀ t ∈ ts, t.kind = .identifier → t.lexeme ≠ "inf"

/-- All tokens of a source text without strings and without the name of infinity. -/
theorem Window.Legible.ofText {text : String}
    (h : ∀ t ∈ (Scan.ofText text).tokens,
      t.kind ≠ .string ∧ (t.kind = .identifier → t.lexeme ≠ "inf")) :
    Window.Legible (Scan.ofText text).tokens where
  scanned _ ht := ⟨text, ht⟩
  noString t ht := (h t ht).1
  noInfinity t ht := (h t ht).2

theorem Kind.Lexeme.isWord {text : List Char} (h : Kind.identifier.Lexeme text) :
    IsWord text ∧ ∀ kind : Kind, kind.word? ≠ some (String.ofList text) := by
  cases h with
  | symbol h => cases h
  | reserved h => cases h
  | identifier hword hnone => exact ⟨hword, hnone⟩

namespace Expression

/-- A legible token is a readable leaf. -/
theorem readable_ofAtom {ts : Window} (h : ts.Legible) {t : Token} (ht : t ∈ ts) :
    Readable (ofAtom t) := by
  obtain ⟨text, htext⟩ := h.scanned t ht
  have hlexeme := Scan.lexeme_of_mem_tokens htext
  unfold ofAtom
  split
  · rename_i hkind
    rw [hkind] at hlexeme
    -- a number of a source text has a value without a sign
    obtain ⟨code, hcode, hvalue⟩ := hlexeme.exists_value .single
    rw [Token.number?, hvalue]
    exact .leaf .number
  · rename_i hkind
    exact absurd hkind (h.noString t ht)
  · exact .leaf (.bool true)
  · exact .leaf (.bool false)
  · rename_i hkind
    rw [hkind] at hlexeme
    obtain ⟨hword, hnone⟩ := hlexeme.isWord
    rw [String.ofList_toList] at hnone
    exact .leaf (.named hword hnone (h.noInfinity t ht hkind))
  · exact .leaf .nil

/-- What is built of readable trees is readable. -/
theorem invariant_readable : Invariant Readable where
  nil := .leaf .nil
  grouped := .grouped
  unary op _ := .unary op
  binary op _ _ := .binary op

/-- **The tree of a legible window is readable.** -/
theorem readable_parseWithin {ts : Window} (h : ts.Legible) (s : Store) (levels : Nat) :
    Readable (parseWithin s levels ts) :=
  invariant_readable.parseWithin (fun _ ht => readable_ofAtom h ht) levels

/-- A group alone has all levels of its window but one for its inside. -/
theorem parse_of_encloses {inner ts : Window} (h : Window.Encloses .leftParen .rightParen inner ts)
    (s : Store) (limit : Nat) : parse s limit ts = grouped (parseWithin s limit inner) := by
  rw [parse_of_operand (.group h)]
  simp [Operand.tree]

/-- Two groups with an operator between them have one level less. -/
theorem parse_of_encloses_encloses {inner inner' ts us : Window} {t : Token} {op : BinaryOp}
    (h : Window.Encloses .leftParen .rightParen inner ts)
    (h' : Window.Encloses .leftParen .rightParen inner' us) (ht : BinaryOp.ofKind? t.kind = some op)
    (s : Store) (limit : Nat) :
    parse s (limit + 1) (ts ++ t :: us)
      = .binary op (grouped (parseWithin s limit inner))
          (grouped (parseWithin s limit inner')) := by
  have hc : Chain.Spells ⟨⟨[], .group inner⟩, [(op, ⟨[], .group inner'⟩)]⟩ (ts ++ t :: us) := by
    -- the window is a chain of two groups, and its operator takes the level
    have hsteps : Chain.Steps [(op, ⟨[], .group inner'⟩)] (t :: (us ++ [])) :=
      .cons ht (.group h') .nil
    rw [List.append_nil] at hsteps
    exact .mk (.group h) hsteps
  rw [parse, parseWithin_succ_of_spells hc (Nat.le_add_left 1 limit)]
  simp [Chain.tree, Operand.tree]

end Expression

open Expression

/-- **Rendered expressions are uniquely readable.**  Of two legible windows, parsed in any two
stores under any two limits, the trees have the same text just if they are the same tree.  So two
groups around such windows are equal in the language just if their insides have the same tree: as
values, and as the operands of `==`. -/
theorem Window.uniquely_readable {ts us : Window} (hts : ts.Legible) (hus : us.Legible)
    (s s' : Store) (limit limit' : Nat) :
    ((parse s limit ts).render = (parse s' limit' us).render
        ↔ parse s limit ts = parse s' limit' us) ∧
      ∀ gs hs : Window, Encloses .leftParen .rightParen ts gs →
        Encloses .leftParen .rightParen us hs →
        ((gs.eval s limit).equals (hs.eval s' limit') = true
          ↔ parseWithin s limit ts = parseWithin s' limit' us) ∧
        ∀ t : Token, t.kind = .equalEqual →
          (gs ++ t :: hs).eval s (limit + 1)
            = .bool (decide (parseWithin s limit ts = parseWithin s limit us)) := by
  refine ⟨⟨?_, congrArg render⟩, fun gs hs hgs hhs => ⟨?_, fun t ht => ?_⟩⟩
  · exact (readable_parseWithin hts s _).eq_of_render_eq (readable_parseWithin hus s' _)
  · rw [eval, eval, parse_of_encloses hgs, parse_of_encloses hhs]
    exact equals_grouped_iff (readable_parseWithin hts s limit)
      (readable_parseWithin hus s' limit') s s'
  · -- the operator compares the texts of the two groups
    have hop : BinaryOp.ofKind? t.kind = some .equal := by rw [ht]; rfl
    have hequals := equals_grouped_iff (readable_parseWithin hts s limit)
      (readable_parseWithin hus s limit) s s
    rw [eval, parse_of_encloses_encloses hgs hhs hop]
    exact congrArg Value.bool (Bool.eq_iff_iff.2 (hequals.trans decide_eq_true_iff.symm))

/-- Both minuses, in windows that differ in their blanks and digits, in a store where the signed
variable is bound. -/
theorem Window.uniquely_readable_minus :
    let ts : Window := (Scan.ofText "-a - 1.50").tokens
    let us : Window := (Scan.ofText "- a-1.5").tokens
    let gs : Window := (Scan.ofText "(-a - 1.50)").tokens
    let hs : Window := (Scan.ofText "(- a-1.5)").tokens
    let store := Store.empty.set "a" (.bool true)
    ts.Legible ∧ us.Legible ∧ Encloses .leftParen .rightParen ts gs ∧
      Encloses .leftParen .rightParen us hs ∧
      (parse store 8 ts).render = "(- (- a) 1.5)" ∧ parse store 8 ts = parse store 9 us ∧
      (gs.eval store 8).equals (hs.eval Store.empty 8) = false ∧
      (gs ++ ⟨.equalEqual, "==", 1⟩ :: hs).eval store 9 = .bool true := by
  intro ts us gs hs store
  have hts : ts.Legible := .ofText (by decide +kernel)
  have hus : us.Legible := .ofText (by decide +kernel)
  have hencloses {inner outer : Window}
      (h : Window.delimited? .leftParen .rightParen outer = some (inner, [])) :
      Encloses .leftParen .rightParen inner outer := by
    obtain ⟨front, hfront, heq⟩ := (delimited?_eq_some_iff_encloses (by decide)).1 h
    rwa [heq, List.append_nil]
  have hgs : Encloses .leftParen .rightParen ts gs := hencloses (by decide +kernel)
  have hhs : Encloses .leftParen .rightParen us hs := hencloses (by decide +kernel)
  have htext : (parse store 8 ts).render = "(- (- a) 1.5)" := by decide +kernel
  have hsame : (parse store 8 ts).render = (parse store 9 us).render := by decide +kernel
  refine ⟨hts, hus, hgs, hhs, htext,
    (uniquely_readable hts hus store store 8 9).1.1 hsame, ?_, ?_⟩
  · rw [Bool.eq_false_iff, ne_eq,
      ((uniquely_readable hts hus store Store.empty 8 8).2 gs hs hgs hhs).1]
    decide +kernel
  · rw [((uniquely_readable hts hus store store 8 8).2 gs hs hgs hhs).2 _ rfl]
    decide +kernel

end Scriptlet
