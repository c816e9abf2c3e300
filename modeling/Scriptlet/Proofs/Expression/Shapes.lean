import Mathlib.Data.List.Forall2
import Scriptlet.Proofs.Expression.Tree

/-!
# Parsing by shape

A window can also be parsed by its shape, without a grammar.  It is a single token, a group in
parentheses, operands with operators between them, or a sign in front of something; the first of
these that it is decides, and a window of no shape is nil.  Operands are found by their positions:
an operand ends behind its signs and an atom, or where the parenthesis behind the signs is closed.

The limit is then tested in three places.  A window below the limit is nil, and so are operators
that do not fit in above it, and what stands behind a sign on the level of the limit.

Parsing by shape and parsing by the grammar are the same.

## Main definitions

* `Window.isGrouping`, `Window.isSigned`, `Window.splitChain?` — the tests for the shapes.
* `Expression.parseWindow` — the expression that a window stands for, on a level.

## Main results

* `Window.isGrouping_iff`, `Window.splitChain?_of_spells` — the shapes, in terms of the grammar.
* `Expression.parseWindow_eq` — **parsing by shape is parsing by the grammar.**
-/

namespace Scriptlet

/-! ### Shapes -/

namespace Window

/-- The window is a pair of parentheses with something between them. -/
def isGrouping (ts : Window) : Bool :=
  decide (2 ≤ ts.length) && closing? .leftParen .rightParen ts == some (ts.length - 1)

/-- The window begins with a sign, and has something behind it. -/
def isSigned (ts : Window) : Bool :=
  decide (2 ≤ ts.length) && ts.head?.any fun t => (UnaryOp.ofKind? t.kind).isSome

/-- The position behind the signs that begin at a position. -/
def signsEnd (ts : Window) (pos : Nat) : Nat :=
  if h : pos < ts.length then
    if (UnaryOp.ofKind? ts[pos].kind).isSome then signsEnd ts (pos + 1) else pos
  else pos
termination_by ts.length - pos

/-- The position behind the operand that begins at a position. -/
def operandEnd? (ts : Window) (start : Nat) : Option Nat :=
  let pos := signsEnd ts start
  match ts[pos]? with
  | none => none
  | some t =>
    if t.kind = .leftParen then
      (closing? .leftParen .rightParen (ts.drop pos)).map fun close => pos + close + 1
    else if t.kind.isAtom then some (pos + 1)
    else none

theorem le_signsEnd (ts : Window) (pos : Nat) : pos ≤ signsEnd ts pos := by
  fun_induction signsEnd ts pos with
  | case1 pos _ _ ih => omega
  | case2 => exact Nat.le_refl _
  | case3 => exact Nat.le_refl _

theorem lt_of_operandEnd? {ts : Window} {start stop : Nat} (h : operandEnd? ts start = some stop) :
    start < stop := by
  have hle := le_signsEnd ts start
  unfold operandEnd? at h
  dsimp only at h
  -- an atom or a closing parenthesis stands behind the signs
  split at h
  · cases h
  · split at h
    · obtain ⟨close, -, rfl⟩ := Option.map_eq_some_iff.1 h
      omega
    · split at h
      · cases h
        omega
      · cases h

/-- The operators from a position to the end, each with the window of the operand behind it. -/
def splitSteps? (ts : Window) (pos : Nat) : Option (List (BinaryOp × Window)) :=
  if hpos : pos < ts.length then
    match BinaryOp.ofKind? ts[pos].kind with
    | none => none
    | some op =>
      match h : operandEnd? ts (pos + 1) with
      | none => none
      | some stop =>
        have : pos + 1 < stop := lt_of_operandEnd? h
        (splitSteps? ts stop).map ((op, (ts.take stop).drop (pos + 1)) :: ·)
  else some []
termination_by ts.length - pos

/-- The window of the first operand, and the operators with the windows of the others; `none` if
there is no operator. -/
def splitChain? (ts : Window) : Option (Window × List (BinaryOp × Window)) :=
  match operandEnd? ts 0 with
  | none => none
  | some stop =>
    match splitSteps? ts stop with
    | none => none
    | some [] => none
    | some (step :: steps) => some (ts.take stop, step :: steps)

end Window

/-! ### Shapes and the grammar -/

namespace Window

theorem isGrouping_iff {ts : Window} :
    ts.isGrouping = true ↔ ∃ inner, Encloses .leftParen .rightParen inner ts := by
  rw [isGrouping, closing?, Bool.and_eq_true, decide_eq_true_eq, beq_iff_eq, Option.map_eq_some_iff]
  constructor
  · rintro ⟨htwo, ⟨inner, rest⟩, hcut, hclose⟩
    obtain ⟨front, hfront, rfl⟩ := (delimited?_eq_some_iff_encloses (by decide)).1 hcut
    -- the last token is the parenthesis, so nothing stands behind it
    have hlength := hfront.length
    rw [List.length_append] at hclose
    obtain rfl : rest = [] := List.length_eq_zero_iff.1 (by dsimp only at hclose; omega)
    exact ⟨inner, by rwa [List.append_nil]⟩
  · rintro ⟨inner, h⟩
    have hlength := h.length
    refine ⟨by omega, (inner, []), ?_, ?_⟩
    · exact (delimited?_eq_some_iff_encloses (by decide)).2 ⟨ts, h, (List.append_nil ts).symm⟩
    · rw [hlength]
      rfl

theorem Encloses.take_drop {opening closing : Kind} {inner ts : Window}
    (h : Encloses opening closing inner ts) : (ts.take (ts.length - 1)).drop 1 = inner := by
  obtain ⟨-, s, t, -, -, rfl⟩ := h
  simp

theorem isSigned_cons_iff {t : Token} {us : Window} :
    isSigned (t :: us) = true ↔ us ≠ [] ∧ (UnaryOp.ofKind? t.kind).isSome = true := by
  simp [isSigned, Nat.succ_le_iff, List.length_pos_iff]

variable {front us : Window} {t : Token}

theorem getElem_front (h : front.length < (front ++ t :: us).length) :
    (front ++ t :: us)[front.length] = t := by
  simp

/-- Positions are those behind a front of the window.  A sign is passed, and becomes part of it. -/
theorem signsEnd_of_isSome (ht : (UnaryOp.ofKind? t.kind).isSome = true) :
    signsEnd (front ++ t :: us) front.length
      = signsEnd (front ++ [t] ++ us) (front ++ [t]).length := by
  rw [signsEnd, dif_pos (by simp), getElem_front, if_pos ht]
  simp

theorem signsEnd_of_eq_none (ht : UnaryOp.ofKind? t.kind = none) :
    signsEnd (front ++ t :: us) front.length = front.length := by
  rw [signsEnd, dif_pos (by simp), getElem_front, if_neg (by simp [ht])]

/-- **An operand ends where it is read to.** -/
theorem operandEnd?_eq (front us : Window) : operandEnd? (front ++ us) front.length
    = (Operand.read? us).map fun p => front.length + (us.length - p.2.length) := by
  induction us generalizing front with
  | nil =>
    rw [operandEnd?, signsEnd]
    simp [Operand.read?]
  | cons t us ih =>
    rw [Operand.read?]
    cases hsign : UnaryOp.ofKind? t.kind with
    | some u =>
      -- a sign is passed by both, and neither looks back
      have hpass : operandEnd? (front ++ t :: us) front.length
          = operandEnd? (front ++ [t] ++ us) (front ++ [t]).length := by
        rw [operandEnd?, signsEnd_of_isSome (by simp [hsign]), operandEnd?]
        simp
      rw [hpass, ih]
      cases hread : Operand.read? us with
      | none => rfl
      | some p =>
        have hlt := (Operand.behind_of_read? hread).length_lt
        simp
        omega
    | none =>
      have ht : (front ++ t :: us)[front.length]? = some t := by simp
      rw [operandEnd?, signsEnd_of_eq_none hsign, ht, List.drop_left, closing?]
      dsimp only
      split_ifs with hparen hatom
      · -- the position of the parenthesis is counted from the end of the signs
        cases hcut : delimited? .leftParen .rightParen (t :: us) with
        | none => rfl
        | some p =>
          obtain ⟨s, t', -, -, hts⟩ := delimited?_eq_some hcut
          have hlength := congrArg List.length hts
          simp only [List.length_cons, List.length_append] at hlength
          simp
          omega
      · simp
      · rfl

/-! ### Chains -/

/-- The windows spell the operands of the steps, behind the same operators. -/
def SpellsSteps (steps : List (BinaryOp × Operand)) (windows : List (BinaryOp × Window)) : Prop :=
  List.Forall₂ (fun step window => step.1 = window.1 ∧ step.2.Spells window.2) steps windows

theorem operandEnd?_of_spells {o : Operand} {ts w rest : Window} (h : o.Spells w)
    (hts : ts = front ++ w ++ rest) :
    operandEnd? ts front.length = some (front ++ w).length := by
  rw [hts, List.append_assoc, operandEnd?_eq, Operand.read?_append h]
  simp

theorem operandEnd?_zero {o : Operand} {w : Window} (h : o.Spells w) (rest : Window) :
    operandEnd? (w ++ rest) 0 = some w.length := by
  simpa [Operand.read?_append h] using operandEnd?_eq [] (w ++ rest)

theorem splitSteps?_cons {ts : Window} (hts : ts = front ++ t :: us) :
    splitSteps? ts front.length = (BinaryOp.ofKind? t.kind).bind fun op =>
      (operandEnd? ts (front ++ [t]).length).bind fun stop =>
        (splitSteps? ts stop).map ((op, (ts.take stop).drop (front ++ [t]).length) :: ·) := by
  subst hts
  rw [List.length_append, List.length_singleton, splitSteps?, dif_pos (by simp), getElem_front]
  split
  · rename_i hop
    rw [hop]
    rfl
  · rename_i op hop
    rw [hop, Option.bind_some]
    split
    · rename_i hstop
      rw [hstop]
      rfl
    · rename_i stop hstop
      simp only [hstop, Option.bind_some]

/-- The operators and operands of a window are split off one after another. -/
theorem splitSteps?_of_steps {steps : List (BinaryOp × Operand)} (h : Chain.Steps steps us)
    {ts : Window} (hts : ts = front ++ us) : ∃ windows,
      splitSteps? ts front.length = some windows ∧ SpellsSteps steps windows := by
  induction h generalizing front with
  | nil =>
    refine ⟨[], ?_, .nil⟩
    rw [splitSteps?, dif_neg (by simp [hts])]
  | @cons t op o steps w us ht ho _ ih =>
    have hsplit : ts = front ++ [t] ++ w ++ us := by simp [hts]
    -- the slice behind the operator is the window of the operand
    have hslice : (ts.take (front ++ [t] ++ w).length).drop (front ++ [t]).length = w := by
      rw [hsplit, List.take_left, List.drop_left]
    have hstop := operandEnd?_of_spells ho hsplit
    obtain ⟨windows, hwindows, hspells⟩ := ih hsplit
    refine ⟨(op, w) :: windows, ?_, .cons ⟨rfl, ho⟩ hspells⟩
    rw [splitSteps?_cons hts, ht, Option.bind_some, hstop, Option.bind_some, hwindows, hslice]
    rfl

/-- Where the operators and operands do not go on to the end, nothing is split off. -/
theorem splitSteps?_eq_none (h : Chain.rest? us = none) {ts : Window} (hts : ts = front ++ us) :
    splitSteps? ts front.length = none := by
  fun_induction Chain.rest? us generalizing front with
  | case1 => cases h
  | case2 t us hop => rw [splitSteps?_cons hts, hop, Option.bind_none]
  | case3 t us op hop hread =>
    have hstop := operandEnd?_eq (front ++ [t]) us
    rw [hread, List.append_assoc, List.singleton_append, ← hts] at hstop
    rw [splitSteps?_cons hts, hstop, hop]
    rfl
  | case4 t us op hop o rest hread hlt ih =>
    obtain ⟨w, ho, rfl⟩ := Operand.spells_of_read? hread
    -- an operand was found, so the failure is further behind
    have hsplit : ts = front ++ [t] ++ w ++ rest := by simp [hts]
    have hstop := operandEnd?_of_spells ho hsplit
    rw [splitSteps?_cons hts, hop, Option.bind_some, hstop, Option.bind_some,
      ih (Option.map_eq_none_iff.1 h) hsplit]
    rfl

/-- **A chain with an operator is split into the windows of its operands.** -/
theorem splitChain?_of_spells {ts : Window} {c : Chain} (h : c.Spells ts) (hrest : c.rest ≠ []) :
    ∃ first windows, splitChain? ts = some (first, windows) ∧ c.first.Spells first ∧
      SpellsSteps c.rest windows := by
  cases h with
  | @mk o steps w us ho hsteps =>
    obtain ⟨windows, hwindows, hspells⟩ := splitSteps?_of_steps hsteps rfl
    refine ⟨w, windows, ?_, ho, hspells⟩
    rw [splitChain?, operandEnd?_zero ho us]
    dsimp only
    rw [hwindows]
    cases hspells with
    | nil => exact absurd rfl hrest
    | cons _ _ => simp

/-- Any other window is not split. -/
theorem splitChain?_eq_none {ts : Window} (h : ∀ c : Chain, c.Spells ts → c.rest = []) :
    splitChain? ts = none := by
  cases hread : Operand.read? ts with
  | none =>
    have hstop : operandEnd? ts 0 = none := by simpa [hread] using operandEnd?_eq [] ts
    rw [splitChain?, hstop]
  | some p =>
    obtain ⟨o, us⟩ := p
    obtain ⟨w, ho, rfl⟩ := Operand.spells_of_read? hread
    rw [splitChain?, operandEnd?_zero ho us]
    dsimp only
    cases hsteps : Chain.rest? us with
    | none => rw [splitSteps?_eq_none hsteps rfl]
    | some steps =>
      have hspells := Chain.steps_of_rest? hsteps
      -- the window is a chain, so it is one without an operator
      obtain rfl : steps = [] := h ⟨o, steps⟩ (.mk ho hspells)
      obtain ⟨windows, hwindows, hspelled⟩ := splitSteps?_of_steps hspells rfl
      cases hspelled
      rw [hwindows]

end Window

/-! ### Parsing -/

namespace Expression

mutual

/-- The expression that a window stands for on a level, the outermost level being zero. -/
def parseWindow (store : Store) (limit depth : Nat) (ts : Window) : Expression :=
  if limit < depth then nil
  else
    match ts with
    | [t] => ofAtom t
    | ts =>
      if ts.isGrouping then parseGrouping store limit depth ts
      else
        match ts.splitChain? with
        | some (first, steps) => parseSteps store limit depth first steps
        | none => if ts.isSigned then parseSigned store limit depth ts else nil
termination_by 2 * (limit + 1 - depth)

/-- The text of a group. -/
def parseGrouping (store : Store) (limit depth : Nat) (ts : Window) : Expression :=
  grouped (parseWindow store limit (depth + 1) ((ts.take (ts.length - 1)).drop 1))
termination_by max 1 (2 * (limit + 1 - depth) - 1)

/-- Operands folded to the left, one level below; nil if there are more operators than levels. -/
def parseSteps (store : Store) (limit depth : Nat) (first : Window)
    (steps : List (BinaryOp × Window)) : Expression :=
  if limit < depth + steps.length then nil
  else
    steps.foldl (fun left step => .binary step.1 left (parseWindow store limit (depth + 1) step.2))
      (parseWindow store limit (depth + 1) first)
termination_by 2 * (limit + 1 - depth) - 1

/-- A sign in front of something that begins with a sign, of a group or of a single token. -/
def parseSigned (store : Store) (limit depth : Nat) (ts : Window) : Expression :=
  match ts.head?.bind fun t => UnaryOp.ofKind? t.kind with
  | none => nil
  | some sign =>
    let rest : Window := ts.drop 1
    let operand :=
      if limit ≤ depth then some nil
      else if rest.isSigned then some (parseSigned store limit (depth + 1) rest)
      else if rest.isGrouping then some (parseGrouping store limit (depth + 1) rest)
      else
        match rest with
        | [t] => some (ofAtom t)
        | _ => none
    match operand with
    | none => nil
    | some operand =>
      if operand = nil ∨ operand.render = "nil" ∨ operand.eval store = .nil then nil
      else unary sign operand
termination_by 2 * (limit + 1 - depth) - 1

end

end Expression

/-! ### Windows of one operand -/

/-- A chain without an operator is its operand. -/
theorem Chain.Spells.first_of_rest {c : Chain} {ts : Window} (h : c.Spells ts)
    (hrest : c.rest = []) : c.first.Spells ts := by
  cases h with
  | mk ho hsteps =>
    cases hrest
    cases hsteps
    rwa [List.append_nil]

namespace Operand

theorem Spells.ne_nil {o : Operand} {ts : Window} (h : o.Spells ts) : ts ≠ [] := by
  rintro rfl
  cases h with
  | group h => exact absurd h.length (Nat.succ_ne_zero _).symm

/-- A single token has no parentheses around it, and no sign in front. -/
theorem Spells.isAtom {o : Operand} {t : Token} (h : o.Spells [t]) : t.kind.isAtom = true := by
  cases h with
  | atom ht => exact ht
  | group h =>
    have hlength := h.length
    rw [List.length_singleton] at hlength
    omega
  | sign _ h => exact absurd rfl h.ne_nil

/-- A first sign takes a level, and the rest of the operand stands on the level below. -/
theorem tree_cons (store : Store) (room : Nat) (nested : Nat → Window → Expression) (u : UnaryOp)
    (signs : List UnaryOp) (primary : Primary) :
    tree store (room + 1) nested ⟨u :: signs, primary⟩ = Expression.signed store u
      (tree store room (fun n inner => nested (n + 1) inner) ⟨signs, primary⟩) := by
  unfold tree
  dsimp only [List.length_cons]
  by_cases h : signs.length ≤ room
  · rw [if_pos (Nat.succ_le_succ h), if_pos h]
    rfl
  · rw [if_neg (mt Nat.le_of_succ_le_succ h), if_neg h]
    exact (if_pos (.inl rfl)).symm

theorem tree_zero_cons (store : Store) (nested : Nat → Window → Expression) (u : UnaryOp)
    (signs : List UnaryOp) (primary : Primary) :
    tree store 0 nested ⟨u :: signs, primary⟩ = .nil :=
  if_neg (Nat.not_succ_le_zero _)

end Operand

namespace Expression

variable {store : Store} {limit depth : Nat} {t : Token} {u : UnaryOp} {o : Operand}
  {us inner : Window}

theorem ofAtom_eq_nil (h : t.kind.isAtom = false) : ofAtom t = nil := by
  unfold ofAtom
  cases hkind : t.kind <;> first | rfl | (rw [hkind] at h; cases h)

theorem parse_atom (ht : t.kind.isAtom = true) : parse store limit [t] = ofAtom t :=
  parse_of_atom (.atom ht) (Nat.zero_le limit)

theorem parse_group (h : Window.Encloses .leftParen .rightParen inner us) :
    parse store limit us = grouped (parseWithin store limit inner) := by
  rw [parse_of_operand (.group h)]
  rfl

/-- A sign takes a level, and what it stands in front of has the others. -/
theorem parse_sign (ht : UnaryOp.ofKind? t.kind = some u) (h : o.Spells us) :
    parse store (limit + 1) (t :: us) = signed store u (parse store limit us) := by
  rw [parse_of_operand (.sign ht h), parse_of_operand h, Operand.tree_cons]
  simp only [Nat.add_sub_add_right]

theorem parse_sign_zero (ht : UnaryOp.ofKind? t.kind = some u) (h : o.Spells us) :
    parse store 0 (t :: us) = nil := by
  rw [parse_of_operand (.sign ht h), Operand.tree_zero_cons]

theorem signed_nil (u : UnaryOp) : signed store u nil = nil := if_pos (.inl rfl)

/-- The literal nil reads `nil`, so it need not be looked for. -/
theorem signed_eq (u : UnaryOp) (operand : Expression) : signed store u operand
    = if operand = nil ∨ operand.render = "nil" ∨ operand.eval store = .nil then nil
      else unary u operand := by
  by_cases hnil : operand = nil
  · rw [hnil, signed_nil, if_pos (.inl rfl)]
  · simp only [signed, hnil, false_or]

/-! ### Signs -/

/-- What stands behind a first sign; nil if it has no shape. -/
def behindSign (store : Store) (limit depth : Nat) (rest : Window) : Expression :=
  if limit ≤ depth then nil
  else if rest.isSigned then parseSigned store limit (depth + 1) rest
  else if rest.isGrouping then parseGrouping store limit (depth + 1) rest
  else
    match rest with
    | [t] => ofAtom t
    | _ => nil

theorem parseSigned_cons (ht : UnaryOp.ofKind? t.kind = some u) (us : Window) :
    parseSigned store limit depth (t :: us)
      = signed store u (behindSign store limit depth us) := by
  rw [parseSigned, List.head?_cons, Option.bind_some, ht, List.drop_one, List.tail_cons]
  dsimp only
  unfold behindSign
  split_ifs with hlimit hsigned hgroup
  · rw [signed_eq]
  · rw [signed_eq]
  · rw [signed_eq]
  · -- without a shape there is no operand, and nil with a sign in front is nil as well
    split
    · rename_i hnone
      split at hnone
      · cases hnone
      · rw [signed_nil]
    · rename_i operand hsome
      split at hsome
      · cases hsome
        rw [signed_eq]
      · cases hsome

/-- Parsing by shape is parsing by the grammar on all levels below this one. -/
def AgreesBelow (store : Store) (limit depth : Nat) : Prop :=
  ∀ below ts, depth < below →
    parseWindow store limit below ts = parseWithin store (limit + 1 - below) ts

theorem AgreesBelow.succ (h : AgreesBelow store limit depth) :
    AgreesBelow store limit (depth + 1) :=
  fun below ts hlt => h below ts (Nat.lt_of_succ_lt hlt)

theorem parseGrouping_eq {ts : Window} (hbelow : AgreesBelow store limit depth)
    (h : Window.Encloses .leftParen .rightParen inner ts) :
    parseGrouping store limit depth ts = parse store (limit - depth) ts := by
  rw [parseGrouping, h.take_drop, hbelow _ _ (Nat.lt_succ_self depth), parse_group h,
    Nat.add_sub_add_right]

/-- A first sign is parsed as in the grammar if what stands behind it is. -/
theorem parseSigned_of_behindSign (ht : UnaryOp.ofKind? t.kind = some u) (h : o.Spells us)
    (hrest : depth < limit →
      behindSign store limit depth us = parse store (limit - (depth + 1)) us) :
    parseSigned store limit depth (t :: us) = parse store (limit - depth) (t :: us) := by
  rw [parseSigned_cons ht]
  by_cases hlimit : depth < limit
  · have hroom : limit - depth = limit - (depth + 1) + 1 := by omega
    rw [hrest hlimit, hroom, parse_sign ht h]
  · have hle : limit ≤ depth := Nat.le_of_not_lt hlimit
    unfold behindSign
    rw [if_pos hle, signed_nil, Nat.sub_eq_zero_of_le hle, parse_sign_zero ht h]

theorem behindSign_of_spells (h : o.Spells us) (hbelow : AgreesBelow store limit depth)
    (hlimit : depth < limit) :
    behindSign store limit depth us = parse store (limit - (depth + 1)) us := by
  -- the induction is along the signs, and each of them goes one level down
  induction h generalizing depth with
  | @atom t ht =>
    rw [parse_atom ht]
    unfold behindSign
    exact if_neg (Nat.not_le_of_lt hlimit)
  | @group inner ts henc =>
    obtain ⟨t, us, rfl, ht⟩ := henc.startsWith
    have hsigned : Window.isSigned (t :: us) = false := by
      simp [Window.isSigned, ht, UnaryOp.ofKind?]
    unfold behindSign
    rw [if_neg (Nat.not_le_of_lt hlimit), hsigned, if_neg Bool.false_ne_true,
      if_pos (Window.isGrouping_iff.2 ⟨_, henc⟩)]
    exact parseGrouping_eq hbelow.succ henc
  | @sign t u signs primary us ht h ih =>
    have hsigned : Window.isSigned (t :: us) = true :=
      Window.isSigned_cons_iff.2 ⟨h.ne_nil, Option.isSome_of_eq_some ht⟩
    unfold behindSign
    rw [if_neg (Nat.not_le_of_lt hlimit), if_pos hsigned]
    exact parseSigned_of_behindSign ht h (ih hbelow.succ)

theorem parseSigned_of_spells (hbelow : AgreesBelow store limit depth)
    (ht : UnaryOp.ofKind? t.kind = some u) (h : o.Spells us) :
    parseSigned store limit depth (t :: us) = parse store (limit - depth) (t :: us) :=
  parseSigned_of_behindSign ht h (behindSign_of_spells h hbelow)

theorem parseSigned_of_not_spells {ts : Window} (h : ¬ ∃ o : Operand, o.Spells ts) :
    parseSigned store limit depth ts = nil := by
  induction ts generalizing depth with
  | nil => rw [parseSigned]; rfl
  | cons t us ih =>
    cases ht : UnaryOp.ofKind? t.kind with
    | none =>
      rw [parseSigned, List.head?_cons, Option.bind_some, ht]
    | some u =>
      -- what is no operand with a sign in front is none without it
      have hus : ¬ ∃ o : Operand, o.Spells us := by
        rintro ⟨⟨signs, primary⟩, ho⟩
        exact h ⟨_, .sign ht ho⟩
      have hrest : behindSign store limit depth us = nil := by
        unfold behindSign
        split_ifs with hlimit hsigned hgroup
        · rfl
        · exact ih hus
        · obtain ⟨inner, henc⟩ := Window.isGrouping_iff.1 hgroup
          exact absurd ⟨_, .group henc⟩ hus
        · split
          · -- a single token is an operand unless it stands for nothing
            rename_i t
            exact ofAtom_eq_nil (Bool.eq_false_iff.2 fun hatom => hus ⟨_, .atom hatom⟩)
          · rfl
      rw [parseSigned_cons ht, hrest, signed_nil]

/-! ### Windows -/

/-- The trees of the steps do not depend on how they are found. -/
theorem foldl_eq_of_spellsSteps {steps : List (BinaryOp × Operand)}
    {windows : List (BinaryOp × Window)} {f : Operand → Expression} {g : Window → Expression}
    (hsteps : Window.SpellsSteps steps windows)
    (hfg : ∀ (o : Operand) (w : Window), o.Spells w → f o = g w) (left : Expression) :
    steps.foldl (fun left step => binary step.1 left (f step.2)) left
      = windows.foldl (fun left step => binary step.1 left (g step.2)) left := by
  induction hsteps generalizing left with
  | nil => rfl
  | cons hstep _ ih => rw [List.foldl_cons, List.foldl_cons, hstep.1, hfg _ _ hstep.2, ih]

/-- Operands folded to the left, as long as there is a level for each of the operators. -/
theorem parseSteps_eq {c : Chain} {ts first : Window} {windows : List (BinaryOp × Window)}
    (hc : c.Spells ts) (hrest : c.rest ≠ []) (hfirst : c.first.Spells first)
    (hsteps : Window.SpellsSteps c.rest windows) (hbelow : AgreesBelow store limit depth)
    (hlimit : depth ≤ limit) :
    parseSteps store limit depth first windows = parse store (limit - depth) ts := by
  have hlength : c.rest.length = windows.length := hsteps.length_eq
  have hpos : 0 < c.rest.length := List.length_pos_iff.2 hrest
  rw [parseSteps, parse, parseWithin, Chain.ofWindow?_eq_some_iff.2 hc]
  dsimp only
  -- both count the operators against the levels that are left
  by_cases hroom : c.rest.length ≤ limit - depth
  · have hoperand {o : Operand} {w : Window} (ho : o.Spells w) :
        o.tree store (limit - depth - 1) (fun signs inner =>
          parseWithin store (limit - depth - 1 - signs) inner)
          = parseWindow store limit (depth + 1) w := by
      -- an operator takes a level, so there is one for its operands
      have hlevels : limit + 1 - (depth + 1) = limit - depth - 1 + 1 := by omega
      rw [hbelow _ _ (Nat.lt_succ_self depth), hlevels]
      exact (parse_of_operand ho).symm
    rw [if_pos hroom, if_neg (by omega), Nat.min_eq_left hpos, Chain.tree, hoperand hfirst]
    exact (foldl_eq_of_spellsSteps hsteps (fun _ _ => hoperand) _).symm
  · rw [if_neg hroom, if_pos (by omega)]

theorem parse_singleton (store : Store) (limit : Nat) (t : Token) :
    parse store limit [t] = ofAtom t := by
  cases hatom : t.kind.isAtom with
  | true => exact parse_atom hatom
  | false =>
    rw [ofAtom_eq_nil hatom]
    refine parseWithin_of_not_spells ?_
    rintro ⟨c, hc⟩
    generalize hts : [t] = ts at hc
    cases hc with
    | mk ho _ =>
      -- a token alone could only be a chain as its first operand
      rcases List.append_eq_singleton_iff.1 hts.symm with ⟨rfl, -⟩ | ⟨rfl, -⟩
      · exact ho.ne_nil rfl
      · rw [ho.isAtom] at hatom
        cases hatom

/-- A window without an operator that is no single token and no group. -/
theorem parseSigned_of_single {ts : Window} (hbelow : AgreesBelow store limit depth)
    (hsingle : ∀ c : Chain, c.Spells ts → c.rest = []) (hmany : ∀ t, ts ≠ [t])
    (hgroup : ts.isGrouping ≠ true) :
    (if ts.isSigned then parseSigned store limit depth ts else nil)
      = parse store (limit - depth) ts := by
  by_cases ho : ∃ o : Operand, o.Spells ts
  · obtain ⟨o, ho⟩ := ho
    cases ho with
    | atom => exact absurd rfl (hmany _)
    | group henc => exact absurd (Window.isGrouping_iff.2 ⟨_, henc⟩) hgroup
    | sign ht h =>
      have hsigned := Window.isSigned_cons_iff.2 ⟨h.ne_nil, Option.isSome_of_eq_some ht⟩
      rw [if_pos hsigned]
      exact parseSigned_of_spells hbelow ht h
  · -- a chain would be its first operand, as it has no operators
    have hnone : ¬ ∃ c : Chain, c.Spells ts := by
      rintro ⟨c, hc⟩
      exact ho ⟨c.first, hc.first_of_rest (hsingle c hc)⟩
    rw [parse, parseWithin_of_not_spells hnone]
    split_ifs
    · exact parseSigned_of_not_spells ho
    · rfl

/-- One level of a window, if the levels below agree. -/
theorem parseWindow_of_agreesBelow (hbelow : AgreesBelow store limit depth)
    (hlimit : depth ≤ limit) (ts : Window) :
    parseWindow store limit depth ts = parse store (limit - depth) ts := by
  unfold parseWindow
  rw [if_neg (Nat.not_lt_of_le hlimit)]
  split
  · exact (parse_singleton _ _ _).symm
  · rename_i hmany
    by_cases hgroup : ts.isGrouping = true
    · obtain ⟨inner, henc⟩ := Window.isGrouping_iff.1 hgroup
      rw [if_pos hgroup, parseGrouping_eq hbelow henc]
    · rw [if_neg hgroup]
      -- an operator decides before a sign does: the first operand may begin with one
      by_cases hchain : ∃ c : Chain, c.Spells ts ∧ c.rest ≠ []
      · obtain ⟨c, hc, hrest⟩ := hchain
        obtain ⟨first, windows, hsplit, hfirst, hsteps⟩ := Window.splitChain?_of_spells hc hrest
        rw [hsplit]
        exact parseSteps_eq hc hrest hfirst hsteps hbelow hlimit
      · have hsingle (c : Chain) (hc : c.Spells ts) : c.rest = [] :=
          not_not.1 fun hrest => hchain ⟨c, hc, hrest⟩
        rw [Window.splitChain?_eq_none hsingle]
        exact parseSigned_of_single hbelow hsingle hmany hgroup

theorem parseWindow_eq_parseWithin (store : Store) (limit depth : Nat) (ts : Window) :
    parseWindow store limit depth ts = parseWithin store (limit + 1 - depth) ts := by
  -- the induction is on the levels that are left
  induction hlevels : limit + 1 - depth using Nat.strongRecOn generalizing depth ts with
  | ind levels ih =>
    by_cases hlimit : depth ≤ limit
    · have hbelow : AgreesBelow store limit depth := fun below ts hlt =>
        ih _ (by omega) below ts rfl
      rw [parseWindow_of_agreesBelow hbelow hlimit, parse, ← hlevels, Nat.succ_sub hlimit]
    · have hlt : limit < depth := Nat.lt_of_not_le hlimit
      have hzero : levels = 0 := by omega
      unfold parseWindow
      rw [if_pos hlt, hzero, parseWithin]

/-- **Parsing by shape is parsing by the grammar.** -/
theorem parseWindow_eq (store : Store) (limit : Nat) (ts : Window) :
    parseWindow store limit 0 ts = parse store limit ts :=
  parseWindow_eq_parseWithin store limit 0 ts

end Expression

end Scriptlet
