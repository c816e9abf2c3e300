import Scriptlet.Proofs.Conditional.Levels
import Scriptlet.Proofs.Expression.Tree
import Scriptlet.Proofs.Machine.Reentry
import Scriptlet.Proofs.Machine.Simulation
import Scriptlet.Source.Scan

/-!
# Limits that are large enough

The limit bounds three things: how deep bodies are run, how deep `if` statements are read, and how
deep expressions are parsed.  The first two go down a level at most once for every `if` token of a
program, since a body never holds the `if` that it belongs to.  So a limit of as many levels as a
program has `if` tokens is never exceeded, and there are programs for which one level less is not
enough.  What expressions need is covered by the number of all tokens; under limits of at least that
many, a program always does the same.

## Main definitions

* `Window.tower` — a program of a given number of `if` statements, each the body of the one before.

## Main results

* `Machine.not_inside_tooDeep` — levels for all `if` tokens of a window are enough to run it.
* `Machine.run_tower` — as many levels as a tower has `if` statements are not enough.
* `Machine.run_eq_of_length_lt` — a limit of at least the number of tokens does not matter.
* `Machine.interpret_large_limit` — **limits that cover a program cannot be told apart.**
-/

namespace Scriptlet

open Window

namespace Machine

/-! ### Enough levels -/

/-- **Levels for all `if` tokens of a window are enough to run it**: the fault in which it ends, if
it does, has no refusal of a level in it.  The induction is on the levels; a window that is run next
has fewer `if` tokens, for it lies behind one of them. -/
theorem not_inside_tooDeep {limit levels n : Nat} {ts : Window} {m : Machine} {f : Fault}
    (hlevels : tally .ifWord ts < levels) (hf : (m.run limit levels ts).fault = some f) :
    ¬ (Fault.tooDeep n).Inside f := by
  induction levels generalizing ts m f with
  | zero => exact absurd hlevels (Nat.not_lt_zero _)
  | succ levels ih =>
    intro hinside
    rcases Script.fault_cases hf with hfault | ⟨s, hs, m₁, hexec⟩
    · have hmalformed : f.isMalformed = true := Script.isMalformed_of_ofWindow hfault
      -- a malformed statement has no branch around it, so it would be the refusal itself
      cases hinside with
      | self =>
        have hlt : levels + 1 < tally .ifWord ts := Script.lt_tally_of_fault hfault
        omega
      | branch => cases hmalformed
    · rcases Statement.fault_cases hexec with ⟨failure, rfl⟩ | ⟨c, rfl, hexec⟩
      · cases hinside
      · obtain ⟨dangling, front, hform, hfront⟩ := Script.exists_form_of_mem hs
        cases hform with
        | conditional hshape =>
          obtain ⟨i, us, rfl, hi, hwithin⟩ := hshape.exists_tail
          have htally : tally .ifWord us + 1 ≤ tally .ifWord ts := by
            rw [← tally_cons_self hi]
            exact hfront.countP_le
          have hbelow {w : Window} (hw : w <:+: us) : tally .ifWord w < levels := by
            have hle : tally .ifWord w ≤ tally .ifWord us := hw.countP_le
            omega
          obtain ⟨v, m₂, -, hcases⟩ := Conditional.fault_cases hexec
          rcases hcases with ⟨-, g, hrun, rfl⟩ | ⟨-, a, g, ha, hrun, rfl⟩ | ⟨-, rfl⟩
          · rcases hinside.cases_invalidBody with heq | hinside
            · cases heq
            · exact ih (hbelow hwithin.body) hrun hinside
          · rcases hinside.cases_invalidBody with heq | hinside
            · cases heq
            · exact ih (hbelow (hwithin.alternative a ha)) hrun hinside
          · cases hinside

end Machine

/-! ### Towers of `if` statements -/

/-- So many `if` statements with a true condition, each the body of the one before, and an empty
statement at the end. -/
def Window.tower : Nat → Window
  | 0 => [⟨.semicolon, ";", 1⟩]
  | n + 1 =>
    ⟨.ifWord, "if", 1⟩ :: ⟨.leftParen, "(", 1⟩ :: ⟨.trueWord, "true", 1⟩ ::
      ⟨.rightParen, ")", 1⟩ :: tower n

theorem Window.tally_tower (n : Nat) : tally .ifWord (tower n) = n := by
  induction n with
  | zero => rfl
  | succ n ih => simp [tower, tally_cons, ih]

namespace Conditional

/-- A tower is the body of another `if`: where it has one itself, as a nested statement. -/
theorem shape_tower (n : Nat) :
    (∃ dangling, Body (Shape n) (tower n) dangling (tower n)) ∧
      Shape (n + 1) ⟨[⟨.trueWord, "true", 1⟩], tower n, none⟩ true (tower (n + 1)) := by
  have hhead : Encloses .leftParen .rightParen [⟨.trueWord, "true", 1⟩]
      [⟨.leftParen, "(", 1⟩, ⟨.trueWord, "true", 1⟩, ⟨.rightParen, ")", 1⟩] :=
    ⟨balanced_of_forall_ne (by decide), _, _, rfl, rfl, rfl⟩
  -- the innermost body is a single semicolon
  have hbody : ∃ dangling, Body (Shape n) (tower n) dangling (tower n) := by
    induction n with
    | zero =>
      have hterminated : Terminated [⟨.semicolon, ";", 1⟩] := ⟨[], _, by simp, rfl, rfl⟩
      have hplain : PlainBody (tower 0) (tower 0) :=
        .simple (by decide) (by decide) (by decide) (by decide) hterminated
      exact ⟨false, .plain hplain⟩
    | succ n ih =>
      obtain ⟨dangling, hbody⟩ := ih
      exact ⟨true, .nested (.short rfl hhead (by simp) hbody)⟩
  obtain ⟨dangling, h⟩ := hbody
  exact ⟨⟨dangling, h⟩, .short rfl hhead (by simp) h⟩

end Conditional

theorem Window.eval_trueWord (store : Store) (limit : Nat) {t : Token} (ht : t.kind = .trueWord) :
    Window.eval store limit [t] = .bool true := by
  have hspells : Chain.Spells ⟨⟨[], .atom t⟩, []⟩ ([t] ++ []) := .mk (.atom (by rw [ht]; rfl)) .nil
  rw [List.append_nil] at hspells
  rw [Window.eval, Expression.parse,
    Expression.parseWithin_succ_of_spells hspells (Nat.zero_le limit)]
  simp [Chain.tree, Operand.tree, Expression.ofAtom, ht, Expression.eval]

theorem Fault.inside_foldr (branches : List Branch) (g : Fault) :
    g.Inside (branches.foldr .invalidBody g) := by
  induction branches with
  | nil => exact .self
  | cons branch branches ih => exact .branch branch ih

namespace Machine

/-- **As many levels as a tower has `if` statements are not enough**: the innermost body is refused.
-/
theorem run_tower (limit n : Nat) (m : Machine) :
    m.run limit n (tower n)
      = .failed m ((List.replicate n .body).foldr .invalidBody (.tooDeep limit)) := by
  induction n with
  | zero => rfl
  | succ n ih =>
    have hread : Conditional.read? limit (n + 1) (tower (n + 1))
        = .ok (⟨[⟨.trueWord, "true", 1⟩], tower n, none⟩, []) := by
      refine (Conditional.read?_eq_ok_iff _ _ _).2 ⟨true, tower (n + 1), ?_, ?_, ?_⟩
      · exact (Conditional.shape_tower n).2
      · rw [List.append_nil]
      · exact fun _ => not_startsWith_nil _
    -- the condition is true, so every body is entered
    have htest : m.test limit [⟨.trueWord, "true", 1⟩] = (.bool true, m) := by
      rw [test, Window.eval_trueWord m.store limit rfl]
      simp
    rw [run_of_read? hread, Conditional.exec_of_true htest, ih]
    rfl

/-! ### Limits that cover all tokens -/

/-- Under two limits for so many tokens, shorter windows are evaluated alike. -/
theorem simulation_of_le {limit limit' n : Nat} (h : n ≤ limit + 1) (h' : n ≤ limit' + 1) :
    Simulation limit limit' (fun w => w.length < n) Eq fun _ _ => False where
  piece hus hts := Nat.lt_of_le_of_lt hus.length_le hts
  eval {ts m m'} hts hm := by
    subst hm
    -- the limit is at least the length, so it does not matter for the value
    have hle : ts.length ≤ limit := by omega
    have hle' : ts.length ≤ limit' := by omega
    rw [Window.eval, Window.eval, Expression.parse_eq_of_length_le hle,
      Expression.parse_eq_of_length_le hle']
  assign value _ _ hm := by rw [hm]
  print value hm := by
    subst hm
    exact .same rfl
  failed h := h.elim
  within _ h := h
  ahead _ := ⟨fun _ _ h => h, fun _ h => h⟩

/-- **A limit of at least the number of tokens does not matter**, nor does the number of levels if
it is larger than that. -/
theorem run_eq_of_length_lt {limit limit' levels levels' : Nat} {ts : Window} {m : Machine}
    (hlimit : ts.length ≤ limit) (hlimit' : ts.length ≤ limit') (h : ts.length < levels)
    (h' : ts.length < levels') : m.run limit levels ts = m.run limit' levels' ts := by
  induction levels generalizing levels' ts m with
  | zero => exact absurd h (Nat.not_lt_zero _)
  | succ levels ih =>
    obtain ⟨below, rfl⟩ : ∃ below, levels' = below + 1 := ⟨levels' - 1, by omega⟩
    have htally : tally .ifWord ts ≤ ts.length := List.countP_le_length
    have hscript : Script.ofWindow limit (levels + 1) ts = Script.ofWindow limit' (below + 1) ts :=
      Script.ofWindow_congr (by omega) (by omega)
    have hsim := simulation_of_le (Nat.le_succ_of_le hlimit) (Nat.le_succ_of_le hlimit')
    have hwithin : ∀ s ∈ (Script.ofWindow limit' (below + 1) ts).statements,
        s.Within fun w => w.length < ts.length :=
      fun s hs => (Script.within_of_mem hs).mono fun w hw => hw.2
    rw [run_succ, run_succ, hscript]
    refine (hsim.script ?_ ?_ hwithin rfl).eq_of_never_cut
    · -- the windows that are run next are shorter, and there is one level less for them
      intro w m m' hw hm
      subst hm
      have hrun : m.run limit levels w = m.run limit' below w :=
        ih (by omega) (by omega) (by omega) (by omega)
      rw [hrun]
      exact .same rfl
    · intro o w m hcut
      exact hcut

/-- **Limits that cover a program cannot be told apart.**  Under a limit of at least the number of
its `if` tokens a program is never refused a level, however it ends; for every limit there is a
program with one `if` token more that is.  Under any two limits of at least the number of all its
tokens, a program does the same. -/
theorem interpret_large_limit :
    (∀ (limit : Nat) (ts : Window) (m : Machine) (f : Fault), tally .ifWord ts ≤ limit →
      (m.interpret limit ts).fault = some f → ∀ n, ¬ (Fault.tooDeep n).Inside f) ∧
      (∀ limit : Nat, ∃ ts : Window, tally .ifWord ts = limit + 1 ∧
        ∀ m : Machine, m.sink.flushes = true →
          ∃ f, (m.interpret limit ts).fault = some f ∧ (Fault.tooDeep limit).Inside f) ∧
      ∀ (limit limit' : Nat) (ts : Window) (m : Machine), ts.length ≤ limit →
        ts.length ≤ limit' → m.interpret limit ts = m.interpret limit' ts := by
  refine ⟨?_, ?_, ?_⟩
  · intro limit ts m f htally hf n
    unfold interpret at hf
    dsimp only at hf
    split at hf
    · exact not_inside_tooDeep (Nat.lt_succ_of_le htally) hf
    · -- the output could not be flushed
      cases hf
      intro hinside
      cases hinside
  · intro limit
    refine ⟨tower (limit + 1), tally_tower (limit + 1), fun m hm => ?_⟩
    rw [interpret_eq_run hm, run_tower]
    exact ⟨_, rfl, Fault.inside_foldr _ _⟩
  · intro limit limit' ts m hlimit hlimit'
    have hrun : m.run limit (limit + 1) ts = m.run limit' (limit' + 1) ts :=
      run_eq_of_length_lt hlimit hlimit' (Nat.lt_succ_of_le hlimit) (Nat.lt_succ_of_le hlimit')
    rw [interpret, interpret, hrun]

/-- A program with two `if` tokens that fails for another reason, in a body on the last of the
levels that the limit leaves for it; and a tower that is one level too high. -/
theorem interpret_large_limit_two :
    let ts := (Scan.ofText "if (x = true) if (!x) x = 1; else if (-x) print x;").tokens
    let m := Machine.fresh .unlimited
    let f := Fault.invalidBody .body (.invalidBody .elseIf (.invalidCondition .nil))
    tally .ifWord ts ≤ 3 ∧ (m.interpret 3 ts).fault = some f ∧ (∀ n, ¬ (Fault.tooDeep n).Inside f) ∧
      (∃ ts : Window, tally .ifWord ts = 4 ∧
        ∃ f, (m.interpret 3 ts).fault = some f ∧ (Fault.tooDeep 3).Inside f) ∧
      ts.length ≤ 27 ∧ m.interpret 27 ts = m.interpret 256 ts := by
  intro ts m f
  have htally : tally .ifWord ts ≤ 3 := by decide +kernel
  have hf : (m.interpret 3 ts).fault = some f := by decide +kernel
  have hlength : ts.length ≤ 27 := by decide +kernel
  obtain ⟨henough, hsharp, hequal⟩ := interpret_large_limit
  obtain ⟨us, hus, hrefused⟩ := hsharp 3
  exact ⟨htally, hf, henough 3 ts m f htally hf, ⟨us, hus, hrefused m rfl⟩, hlength,
    hequal 27 256 ts m hlength (Nat.le_trans hlength (by decide))⟩

end Machine

end Scriptlet
