import Scriptlet.Proofs.Command.Print
import Scriptlet.Proofs.Expression.Tree
import Scriptlet.Proofs.Number.ReadBack

/-!
# Reported numbers

What is reported of a finite number is itself an expression of that value.  The scanner takes it for
one number, or for a minus and a number: plain notation has no exponent, begins with a digit and has
a digit behind the point.  The minus is then a sign, which takes one level of nesting, and it turns
the number without a sign into the one that was reported, a zero as any other.

So a file with the report of a number in it is reported as it stands.

## Main definitions

* `Number.signTokens` — the token of a sign, if there is one.

## Main results

* `Scan.ofText_plain` — the tokens of a reported number.
* `Window.valueAlone_signed` — the value of such tokens.
* `respond_parse_report` — **the report of a number is reported again.**
-/

namespace Scriptlet

/-! ### The scan of a report -/

/-- A minus in front of a text is scanned as such, whatever follows it. -/
theorem textResults_minus (line : Nat) (cs : List Char) :
    textResults line ('-' :: cs) = .ok ⟨.minus, "-", line⟩ :: textResults line cs := by
  have hlexeme : Kind.minus.Lexeme "-".toList := .symbol (by decide)
  have hends : Kind.minus.Ends "-".toList cs :=
    .of_symbol rfl (fun h => absurd rfl h) (fun h => by cases h)
  have hcount : "-".toList.count '\n' = 0 := by decide
  have hscan := textResults_append_lexeme (t := ⟨.minus, "-", line⟩) hlexeme hends line
  dsimp only at hscan
  rwa [hcount] at hscan

theorem textResults_number {text : String} (h : Kind.number.Lexeme text.toList) (line : Nat) :
    textResults line text.toList = [.ok ⟨.number, text, line⟩] := by
  have hscan := textResults_append_lexeme (t := ⟨.number, text, line⟩) h .of_nil line
  rwa [List.append_nil, textResults_nil] at hscan

/-- A line feed behind a text without lexical errors yields nothing. -/
theorem Scan.ofText_newline {text : String} (h : (Scan.ofText text).errors = []) :
    Scan.ofText (text ++ "\n") = Scan.ofText text := by
  have hclosed : ∀ n, .error (.unterminatedString n) ∉ textResults 1 text.toList :=
    fun n => error_notMem_of_errors_eq_nil h _
  have hresults : textResults 1 (text ++ "\n").toList = textResults 1 text.toList := by
    rw [String.toList_append]
    show textResults 1 (text.toList ++ '\n' :: []) = _
    rw [textResults_append_newline hclosed, textResults_cons_blank (by decide), textResults_nil,
      List.append_nil]
  exact congrArg ofResults hresults

/-- The token of a sign, if there is one. -/
def Number.signTokens (negative : Bool) : Window :=
  if negative then [⟨.minus, "-", 1⟩] else []

theorem Scan.ofText_sign (negative : Bool) {text : String} (h : Kind.number.Lexeme text.toList) :
    Scan.ofText (Number.sign negative ++ text)
      = ⟨Number.signTokens negative ++ [⟨.number, text, 1⟩], []⟩ := by
  have hresults : textResults 1 (Number.sign negative ++ text).toList
      = (Number.signTokens negative ++ [(⟨.number, text, 1⟩ : Token)]).map .ok := by
    rw [String.toList_append]
    cases negative with
    | false => exact textResults_number h 1
    | true => exact (textResults_minus 1 text.toList).trans (congrArg _ (textResults_number h 1))
  exact (congrArg ofResults hresults).trans (ofResults_map_ok _)

namespace Number

variable {code : Nat} {hcode : code ≤ BinaryFormat.single.infinity}

theorem plain_of_finite (negative : Bool) (hfinite : code ≠ BinaryFormat.single.infinity) :
    plain (.signed negative code hcode)
      = sign negative ++ String.ofList (BinaryFormat.single.shortest code).plain := by
  rw [plain, plainWith, if_neg hfinite]

theorem plain_magnitude (hfinite : code ≠ BinaryFormat.single.infinity) :
    plain (.signed false code hcode) = String.ofList (BinaryFormat.single.shortest code).plain := by
  rw [plain_of_finite false hfinite]
  exact String.empty_append

theorem lexeme_plain (hfinite : code ≠ BinaryFormat.single.infinity) :
    Kind.number.Lexeme (plain (.signed false code hcode)).toList := by
  obtain ⟨whole, fraction, hwhole, hfraction, hplain, -⟩ :=
    (BinaryFormat.single.shortest code).exists_plain_eq
  rw [plain_magnitude hfinite, String.toList_ofList, hplain]
  exact Decimal.lexeme_pointed hwhole hfraction

end Number

variable {code : Nat} {hcode : code ≤ BinaryFormat.single.infinity}

/-- **The tokens of a reported number**: its magnitude, behind a minus if it is negative. -/
theorem Scan.ofText_plain (negative : Bool) (hfinite : code ≠ BinaryFormat.single.infinity) :
    Scan.ofText (Number.plain (.signed negative code hcode))
      = ⟨Number.signTokens negative
          ++ [⟨.number, Number.plain (.signed false code hcode), 1⟩], []⟩ := by
  have hmagnitude : Number.plain (.signed false code hcode) = _ := Number.plain_magnitude hfinite
  rw [Number.plain_of_finite negative hfinite, ← hmagnitude]
  exact Scan.ofText_sign negative (Number.lexeme_plain hfinite)

/-! ### The value of a report -/

/-- A sign stays in front of a number: it has a value, and does not read `nil`. -/
theorem Expression.signed_number (store : Store) (sign : UnaryOp) (x : Number) :
    signed store sign (number x) = unary sign (number x) := by
  have hnotnil : ¬ ((number x).render = "nil" ∨ (number x).eval store = .nil) := by
    rintro (h | h)
    · exact x.bare_ne_nil h
    · cases h
  rw [signed, if_neg hnotnil]

/-- **The value of a number behind a sign.**  The sign takes one level. -/
theorem Window.valueAlone_signed (negative : Bool) {t : Token} (ht : t.kind = .number)
    (hvalue : t.number? .single = some (.signed false code hcode)) {limit : Nat}
    (hlimit : 1 ≤ limit) :
    Window.valueAlone limit (Number.signTokens negative ++ [t])
      = .number (.signed negative code hcode) := by
  have hatom : Expression.ofAtom t = .number (.signed false code hcode) := by
    rw [Expression.ofAtom, ht]
    show (t.number? .single).elim Expression.nil Expression.number = _
    rw [hvalue]
    rfl
  have hspells : Operand.Spells ⟨[], .atom t⟩ [t] := .atom (by rw [ht]; rfl)
  unfold Window.valueAlone Window.eval
  cases negative with
  | false =>
    show (Expression.parse .empty limit [t]).eval .empty = _
    rw [Expression.parse_of_atom hspells (Nat.zero_le _), List.foldr_nil, hatom]
    rfl
  | true =>
    -- the minus is the sign of an operand, not an operator between two
    have hsigned : Operand.Spells ⟨[.negate], .atom t⟩ [⟨.minus, "-", 1⟩, t] := .sign rfl hspells
    show (Expression.parse .empty limit [⟨.minus, "-", 1⟩, t]).eval .empty = _
    rw [Expression.parse_of_atom hsigned hlimit, List.foldr_cons, List.foldr_nil, hatom,
      Expression.signed_number]
    rfl

/-- **The report of a number is reported again.**  A finite number, a zero of either sign and a
subnormal one as any other, is reported by a text that has no lexical errors and, under every limit
of at least one, the value of that number.  So what the command reports of a file with a line of
report in it is that line. -/
theorem respond_parse_report {x : Number} (hx : x.isFinite = true) :
    (Scan.ofText (Value.number x).report).errors = [] ∧
      (∀ limit : Nat, 1 ≤ limit →
        Window.valueAlone limit (Scan.ofText (Value.number x).report).tokens = .number x) ∧
      ∀ (path : String) (setting : Option String),
        respond ["parse", path] (.ok ((Value.number x).report ++ "\n")) setting
          = ⟨.success, ((Value.number x).report ++ "\n").toUTF8, ""⟩ := by
  cases x with
  | nan => cases hx
  | signed negative code hcode =>
    have hfinite : code ≠ BinaryFormat.single.infinity := by
      simpa [Binary.isFinite] using hx
    have hscan : Scan.ofText (Value.number (.signed negative code hcode)).report = _ :=
      Scan.ofText_plain negative hfinite
    generalize htext : (Value.number (.signed negative code hcode)).report = text at hscan ⊢
    have herrors : (Scan.ofText text).errors = [] := by rw [hscan]
    have hvalue (limit : Nat) (hlimit : 1 ≤ limit) :
        Window.valueAlone limit (Scan.ofText text).tokens
          = .number (.signed negative code hcode) := by
      have hread : Token.number? .single ⟨.number, Number.plain (.signed false code hcode), 1⟩
          = some (.signed false code hcode) := Number.ofText?_plain (.signed false code hcode)
      rw [hscan]
      exact Window.valueAlone_signed negative rfl hread hlimit
    refine ⟨herrors, hvalue, fun path setting => ?_⟩
    -- the line feed behind the report changes nothing in its scan
    have hline : Scan.ofText (text ++ "\n") = Scan.ofText text := Scan.ofText_newline herrors
    have hanswer := respond_parse (hline ▸ herrors) path setting
    rw [hline, hvalue _ (Limit.ofSetting_pos setting), htext] at hanswer
    exact hanswer

/-- The number `-2 ^ (-16)`, which is printed with an exponent, at the least limit. -/
theorem respond_parse_report_power :
    Binary.isFinite (.signed true 931135488 (by decide) : Number) = true ∧
      (Value.number (.signed true 931135488 (by decide))).report = "-0.000015258789" ∧
      (Scan.ofText "-0.000015258789").errors = [] ∧
      Window.valueAlone 1 (Scan.ofText "-0.000015258789").tokens
        = .number (.signed true 931135488 (by decide)) ∧
      respond ["parse", "a.lox"] (.ok "-0.000015258789\n") (some "1")
        = ⟨.success, "-0.000015258789\n".toUTF8, ""⟩ := by
  have hfinite : Binary.isFinite (.signed true 931135488 (by decide) : Number) = true := by
    decide
  have hreport : (Value.number (.signed true 931135488 (by decide))).report
      = "-0.000015258789" := by decide +kernel
  have hline : "-0.000015258789" ++ "\n" = "-0.000015258789\n" := by decide
  obtain ⟨herrors, hvalue, hanswer⟩ := respond_parse_report hfinite
  rw [hreport] at herrors hvalue hanswer
  rw [hline] at hanswer
  exact ⟨hfinite, hreport, herrors, hvalue 1 (Nat.le_refl 1), hanswer "a.lox" (some "1")⟩

end Scriptlet
