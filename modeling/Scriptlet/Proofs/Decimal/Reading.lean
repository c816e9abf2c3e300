import Mathlib.Data.List.Induction
import Scriptlet.Decimal.Numeral
import Scriptlet.Number
import Scriptlet.Proofs.Source.Piecewise

/-!
# Reading written decimals

Both notations of decimals are numerals.  Plain notation is a run of digits, or two of them with a
point in between; scientific notation has the same in front of an exponent.  Reading takes such a
text apart again where it was put together, so a decimal that is written in either notation is read
as one with the same value: in scientific notation the decimal itself, in plain notation perhaps
with its zeros moved into the coefficient.

An exponent is read with a limit on its size.  No decimal of a binary value comes near it.

## Main definitions

* `Decimal.pointed` — digits with a point among them.
* `Decimal.leading` — the power of ten of the first digit.

## Main results

* `Numeral.read?_sign` — a numeral that begins with a digit, and perhaps a minus in front.
* `Decimal.exists_plain_eq`, `Decimal.scientific_eq` — the two notations as numerals.
* `Binary.ofText?_plain`, `Binary.ofText?_scientific` — **both notations read back.**
-/

namespace Scriptlet

namespace Decimal

/-- Digits, and a point with more digits behind it if there are any. -/
def pointed (whole fraction : List Char) : List Char :=
  if fraction = [] then whole else whole ++ '.' :: fraction

/-- The power of ten of the first digit of a decimal. -/
def leading (d : Decimal) : Int := d.exponent + ((digits d.coefficient).length - 1 : Nat)

theorem begins_pointed {whole fraction : List Char} (h : Kind.IsDigits whole) (rest : List Char) :
    Begins Char.isDigit (pointed whole fraction ++ rest) := by
  obtain ⟨hne, hdigits⟩ := h
  obtain ⟨c, cs, rfl⟩ := List.exists_cons_of_ne_nil hne
  unfold pointed
  split
  · exact ⟨c, _, rfl, hdigits c List.mem_cons_self⟩
  · exact ⟨c, _, rfl, hdigits c List.mem_cons_self⟩

theorem mem_pointed {whole fraction : List Char} {c : Char} (h : c ∈ pointed whole fraction) :
    c ∈ whole ∨ c = '.' ∨ c ∈ fraction := by
  unfold pointed at h
  split at h
  · exact .inl h
  · exact (List.mem_append.1 h).imp_right List.mem_cons.1

/-- Digits with a point among them are what the scanner takes for a number. -/
theorem lexeme_pointed {whole fraction : List Char} (hwhole : Kind.IsDigits whole)
    (hfraction : ∀ c ∈ fraction, c.isDigit = true) :
    Kind.number.Lexeme (pointed whole fraction) := by
  unfold pointed
  split
  · exact .whole hwhole
  · rename_i hne
    exact .fraction hwhole ⟨hne, hfraction⟩

end Decimal

namespace Numeral

open Decimal

/-! ### Taking a numeral apart -/

theorem splitPoint_pointed {whole fraction rest : List Char}
    (hwhole : ∀ c ∈ whole, c.isDigit = true) (hfraction : ∀ c ∈ fraction, c.isDigit = true)
    (hrest : ¬ Begins (fun c => c.isDigit || c == '.') rest) :
    splitPoint (pointed whole fraction ++ rest) = (whole, fraction, rest) := by
  -- the digits stop where the rest begins, with a point or without one
  have hdigit : ¬ Begins Char.isDigit rest := by
    rintro ⟨c, cs, rfl, hc⟩
    exact hrest ⟨c, cs, rfl, by simp [hc]⟩
  unfold pointed
  split
  · rename_i hnone
    obtain ⟨htake, hdrop⟩ := takeWhile_append_of_not_begins hwhole hdigit
    unfold splitPoint
    rw [htake, hdrop, hnone]
    split
    · exact absurd ⟨'.', _, rfl, rfl⟩ hrest
    · rfl
  · have hpoint : ¬ Begins Char.isDigit ('.' :: (fraction ++ rest)) := by simp
    obtain ⟨htake, hdrop⟩ := takeWhile_append_of_not_begins hwhole hpoint
    obtain ⟨htake', hdrop'⟩ := takeWhile_append_of_not_begins hfraction hdigit
    rw [List.append_assoc, List.cons_append]
    unfold splitPoint
    rw [htake, hdrop]
    show (whole, List.takeWhile _ (fraction ++ rest), List.dropWhile _ (fraction ++ rest)) = _
    rw [htake', hdrop']

section

variable {whole fraction : List Char} (hwhole : Kind.IsDigits whole)
  (hfraction : ∀ c ∈ fraction, c.isDigit = true)

include hwhole hfraction

theorem decimal?_pointed :
    decimal? (pointed whole fraction)
      = some ⟨ofDigits (whole ++ fraction), -(fraction.length : Int)⟩ := by
  have hsplit : splitPoint (pointed whole fraction) = (whole, fraction, []) := by
    have h := splitPoint_pointed hwhole.2 hfraction not_begins_nil
    rwa [List.append_nil] at h
  unfold decimal?
  rw [hsplit]
  exact if_neg fun hnil => hwhole.1 (List.append_eq_nil_iff.1 hnil).1

theorem decimal?_pointed_exponent {text : List Char} {e : Int} (h : exponent? text = some e) :
    decimal? (pointed whole fraction ++ 'e' :: text)
      = some ⟨ofDigits (whole ++ fraction), e - fraction.length⟩ := by
  have hsplit : splitPoint (pointed whole fraction ++ 'e' :: text)
      = (whole, fraction, 'e' :: text) :=
    splitPoint_pointed hwhole.2 hfraction (by simp)
  unfold decimal?
  rw [hsplit]
  dsimp only
  rw [if_neg fun hnil => hwhole.1 (List.append_eq_nil_iff.1 hnil).1, if_pos (.inl rfl), h]
  rfl

end

theorem toLower_of_isDigit {c : Char} (h : c.isDigit = true) : c.toLower = c := by
  have hdigit := of_decide_eq_true (Bool.and_eq_true_iff.1 h).2
  unfold Char.toLower
  rw [dif_neg]
  rintro ⟨hupper, -⟩
  exact absurd (UInt32.le_trans hupper hdigit) (by decide)

/-- A text that begins with a digit is neither of the words. -/
theorem unsigned?_of_begins {cs : List Char} (h : Begins Char.isDigit cs) :
    unsigned? cs = (decimal? cs).map decimal := by
  obtain ⟨c, rest, rfl, hc⟩ := h
  have hword {d : Char} {ds : List Char} (hd : d.isDigit = false) :
      (c :: rest).map Char.toLower ≠ d :: ds := by
    intro heq
    rw [List.map_cons, toLower_of_isDigit hc] at heq
    rw [(List.cons.inj heq).1, hd] at hc
    cases hc
  unfold unsigned?
  dsimp only
  rw [if_neg (hword rfl), if_neg (not_or.2 ⟨hword rfl, hword rfl⟩)]

/-- A minus in front of a digit is taken off, and a digit in front is left alone. -/
theorem splitSign_sign (negative : Bool) {cs : List Char} (h : Begins Char.isDigit cs) :
    -- a digit is neither of the two signs
    splitSign ((Number.sign negative).toList ++ cs) = (negative, cs) := by
  obtain ⟨c, rest, rfl, hc⟩ := h
  cases negative with
  | true => rfl
  | false =>
    show splitSign (c :: rest) = (false, c :: rest)
    unfold splitSign
    split
    · rename_i heq
      obtain ⟨rfl, -⟩ := List.cons.inj heq
      cases hc
    · rename_i heq
      obtain ⟨rfl, -⟩ := List.cons.inj heq
      cases hc
    · rfl

/-- **A numeral that begins with a digit**, and perhaps a minus in front of it. -/
theorem read?_sign (negative : Bool) {cs : List Char} (h : Begins Char.isDigit cs) :
    read? ((Number.sign negative).toList ++ cs)
      = (decimal? cs).map fun d => (negative, decimal d) := by
  rw [read?, splitSign_sign negative h, unsigned?_of_begins h, Option.map_map]
  rfl

/-! ### Exponents -/

/-- An exponent that does not pass the limit is the number that its digits spell.  The induction
takes digits off the end, as the last digit is the one that may not be counted. -/
theorem exponentSize_of_lt {ds : List Char} (h : ofDigits ds < 655360) :
    exponentSize ds = ofDigits ds := by
  induction ds using List.reverseRecOn with
  | nil => rfl
  | append_singleton ds d ih =>
    have hspelled : ofDigits (ds ++ [d]) = 10 * ofDigits ds + (d.toNat - '0'.toNat) :=
      Nat.ofDigitChars_append 0
    have hsize : exponentSize (ds ++ [d])
        = if exponentSize ds < 65536 then 10 * exponentSize ds + (d.toNat - '0'.toNat)
          else exponentSize ds := by
      unfold exponentSize
      rw [List.foldl_append]
      rfl
    -- the front is below a tenth of the bound, so the last digit still counts
    rw [hsize, ih (by omega), if_pos (by omega), hspelled]

theorem ofDigits_padded (width n : Nat) : ofDigits (padded width (digits n)) = n := by
  unfold ofDigits padded
  rw [Nat.ofDigitChars_append, Nat.ofDigitChars_replicate_zero, Nat.mul_zero]
  exact Nat.ofDigitChars_ten_toDigits

theorem exponent?_written {e : Int} (h : e.natAbs < 65536) :
    exponent? ((if e < 0 then '-' else '+') :: padded 2 (digits e.natAbs)) = some e := by
  have hdigits : padded 2 (digits e.natAbs) ≠ [] ∧
      (padded 2 (digits e.natAbs)).all Char.isDigit = true := by
    refine ⟨?_, List.all_eq_true.2 fun c hc => isDigit_of_mem_padded hc⟩
    exact List.append_ne_nil_of_right_ne_nil _ Nat.toDigits_ne_nil
  -- padding does not change the value, and the limit of reading is not reached
  have hsize : exponentSize (padded 2 (digits e.natAbs)) = e.natAbs := by
    rw [exponentSize_of_lt, ofDigits_padded]
    rw [ofDigits_padded]
    omega
  by_cases hneg : e < 0
  · have hsplit (ds : List Char) : splitSign ('-' :: ds) = (true, ds) := rfl
    rw [if_pos hneg, exponent?, hsplit]
    dsimp only
    rw [if_pos hdigits, hsize, if_pos rfl, Int.ofNat_natAbs_of_nonpos (by omega), Int.neg_neg]
  · have hsplit (ds : List Char) : splitSign ('+' :: ds) = (false, ds) := rfl
    rw [if_neg hneg, exponent?, hsplit]
    dsimp only
    rw [if_pos hdigits, hsize, if_neg Bool.false_ne_true, Int.natAbs_of_nonneg (by omega)]

end Numeral

namespace Decimal

open Numeral

/-! ### The two notations -/

theorem code_mul_pow (F : BinaryFormat) (c n : Nat) (e : Int) :
    (⟨c * 10 ^ n, e⟩ : Decimal).code F = (⟨c, e + n⟩ : Decimal).code F := by
  induction n generalizing e with
  | zero => simp
  | succ n ih =>
    have hten : c * 10 ^ (n + 1) = 10 * (c * 10 ^ n) := by grind
    have hexponent : e + 1 + (n : Int) = e + ((n + 1 : Nat) : Int) := by omega
    rw [hten, code_ten_mul, ih, hexponent]

/-- **Plain notation** is a run of digits, or two with a point in between, and spells the same value
in all formats. -/
theorem exists_plain_eq (d : Decimal) :
    ∃ whole fraction : List Char, Kind.IsDigits whole ∧ (∀ c ∈ fraction, c.isDigit = true) ∧
      d.plain = pointed whole fraction ∧
      ∀ F : BinaryFormat,
        (⟨ofDigits (whole ++ fraction), -(fraction.length : Int)⟩ : Decimal).code F = d.code F := by
  obtain ⟨coefficient, exponent⟩ := d
  match exponent with
  | .ofNat e =>
    refine ⟨digits coefficient ++ List.replicate e '0', [], ⟨?_, ?_⟩, by simp, rfl, ?_⟩
    · exact List.append_ne_nil_of_left_ne_nil Nat.toDigits_ne_nil _
    · intro c hc
      rcases List.mem_append.1 hc with hc | hc
      · exact isDigit_of_mem_digits hc
      · rw [List.eq_of_mem_replicate hc]
        decide
    · intro F
      have hspelled : ofDigits (digits coefficient ++ List.replicate e '0' ++ [])
          = coefficient * 10 ^ e := by
        rw [List.append_nil, ofDigits, Nat.ofDigitChars_append, digits,
          Nat.ofDigitChars_ten_toDigits, Nat.ofDigitChars_replicate_zero, Nat.mul_comm]
      rw [hspelled, code_mul_pow]
      simp
  | .negSucc e =>
    -- padding leaves at least one digit in front of the point
    obtain ⟨ds, hds⟩ : ∃ ds, padded (e + 2) (digits coefficient) = ds := ⟨_, rfl⟩
    have hlength : e + 2 ≤ ds.length := by
      rw [← hds, padded, List.length_append, List.length_replicate]
      omega
    have hdigits : ∀ c ∈ ds, c.isDigit = true := fun c hc => isDigit_of_mem_padded (hds ▸ hc)
    have hfraction : (ds.drop (ds.length - (e + 1))).length = e + 1 := by
      rw [List.length_drop]
      omega
    refine ⟨ds.take (ds.length - (e + 1)), ds.drop (ds.length - (e + 1)), ⟨?_, ?_⟩, ?_, ?_, ?_⟩
    · intro hnil
      have hnone := congrArg List.length hnil
      rw [List.length_take, List.length_nil] at hnone
      omega
    · exact fun c hc => hdigits c (List.mem_of_mem_take hc)
    · exact fun c hc => hdigits c (List.mem_of_mem_drop hc)
    · have hne : ds.drop (ds.length - (e + 1)) ≠ [] := List.ne_nil_of_length_eq_add_one hfraction
      rw [pointed, if_neg hne, ← hds]
      rfl
    · intro F
      rw [List.take_append_drop, hfraction, ← hds, ofDigits_padded]
      rfl

/-- **Scientific notation** is a digit, perhaps with a point and more digits behind it, and an
exponent, which is the power of ten of the first digit. -/
theorem scientific_eq (d : Decimal) :
    d.scientific
      = pointed ((digits d.coefficient).take 1) ((digits d.coefficient).drop 1)
          ++ 'e' :: (if d.leading < 0 then '-' else '+')
            :: padded 2 (digits d.leading.natAbs) := by
  -- the point is written just if there are digits behind it
  have hmantissa (ds : List Char) :
      (if ds.length ≤ 1 then ds else ds.take 1 ++ '.' :: ds.drop 1)
        = pointed (ds.take 1) (ds.drop 1) := by
    unfold pointed
    by_cases hone : ds.length ≤ 1
    · rw [if_pos hone, if_pos (List.drop_eq_nil_of_le hone), List.take_of_length_le hone]
    · rw [if_neg hone, if_neg fun hnil => hone (List.drop_eq_nil_iff.1 hnil)]
  rw [← hmantissa]
  rfl

theorem begins_plain (d : Decimal) : Begins Char.isDigit d.plain := by
  obtain ⟨whole, fraction, hwhole, -, hplain, -⟩ := d.exists_plain_eq
  have h : Begins Char.isDigit (pointed whole fraction ++ []) := begins_pointed hwhole []
  rwa [List.append_nil, ← hplain] at h

/-- Plain notation is read as a decimal of the same value. -/
theorem decimal?_plain (d : Decimal) :
    ∃ d' : Decimal, decimal? d.plain = some d' ∧ ∀ F : BinaryFormat, d'.code F = d.code F := by
  obtain ⟨whole, fraction, hwhole, hfraction, hplain, hcode⟩ := d.exists_plain_eq
  exact ⟨_, hplain ▸ decimal?_pointed hwhole hfraction, hcode⟩

theorem isDigits_take_one (n : Nat) : Kind.IsDigits ((digits n).take 1) := by
  refine ⟨?_, fun c hc => isDigit_of_mem_digits (List.mem_of_mem_take hc)⟩
  have hne : digits n ≠ [] := Nat.toDigits_ne_nil
  obtain ⟨c, cs, hcs⟩ := List.exists_cons_of_ne_nil hne
  rw [hcs]
  exact List.cons_ne_nil _ _

theorem begins_scientific (d : Decimal) : Begins Char.isDigit d.scientific := by
  rw [scientific_eq]
  exact begins_pointed (isDigits_take_one _) _

/-- Scientific notation is read as it was written. -/
theorem decimal?_scientific {d : Decimal} (h : d.leading.natAbs < 65536) :
    decimal? d.scientific = some d := by
  have hfraction : ∀ c ∈ (digits d.coefficient).drop 1, c.isDigit = true :=
    fun c hc => isDigit_of_mem_digits (List.mem_of_mem_drop hc)
  have hspelled : ofDigits ((digits d.coefficient).take 1 ++ (digits d.coefficient).drop 1)
      = d.coefficient := by
    rw [List.take_append_drop]
    exact Nat.ofDigitChars_ten_toDigits
  have hexponent : d.leading - ((digits d.coefficient).drop 1).length = d.exponent := by
    rw [leading, List.length_drop]
    omega
  rw [scientific_eq, decimal?_pointed_exponent (isDigits_take_one _) hfraction
    (exponent?_written h), hspelled, hexponent]

end Decimal

namespace Binary

open Numeral

/-- A text that begins with a digit, and perhaps a minus in front, has the value of its decimal. -/
theorem ofText?_sign (F : BinaryFormat) (negative : Bool) {cs : List Char}
    (h : Begins Char.isDigit cs) :
    ofText? F (Number.sign negative ++ String.ofList cs)
      = (decimal? cs).map fun d => .signed negative (d.code F) (d.code_le_infinity F) := by
  rw [ofText?, String.toList_append, String.toList_ofList, read?_sign negative h, Option.map_map]
  rfl

/-- **Plain notation reads back.** -/
theorem ofText?_plain (F : BinaryFormat) (negative : Bool) (d : Decimal) :
    ofText? F (Number.sign negative ++ String.ofList d.plain)
      = some (.signed negative (d.code F) (d.code_le_infinity F)) := by
  obtain ⟨d', hread, hcode⟩ := d.decimal?_plain
  rw [ofText?_sign F negative d.begins_plain, hread]
  simp only [Option.map_some, hcode]

/-- **Scientific notation reads back**, if the exponent is not beyond the limit of reading. -/
theorem ofText?_scientific (F : BinaryFormat) (negative : Bool) {d : Decimal}
    (h : d.leading.natAbs < 65536) :
    ofText? F (Number.sign negative ++ String.ofList d.scientific)
      = some (.signed negative (d.code F) (d.code_le_infinity F)) := by
  rw [ofText?_sign F negative d.begins_scientific, Decimal.decimal?_scientific h]
  rfl

end Binary

end Scriptlet
