import Scriptlet.Proofs.Source.Bytes
import Scriptlet.Proofs.Source.Lossless

/-!
# Scanning byte by byte

A scanner that goes over segments never sees where they stand in the text.  One that goes over the
bytes of a text has a position there, and one for the byte after, and cuts lexemes out of the text
by their positions.  It stops at quotes, line feeds and the like, which are bytes as well as
characters; so between two segments, and behind every loop, it stands between two characters.

A slice that is out of range or splits a character has no outcome here.

## Main definitions

* `ByteScanner` — the state of a scan: two positions, the byte at hand and the line.
* `ByteScanner.next` — the next result; `ByteScanner.calls` — the results of so many calls.
* `ByteScanner.after` — the scanner behind the first characters of a text.

## Main results

* `ByteScanner.skipWhile_after` — a loop passes the longest run of characters that pass its test.
* `ByteScanner.test_char_eq_any` — a test on the byte at hand is one on the character there.
-/

namespace Scriptlet

/-- A scanner that goes over the bytes of a text. -/
structure ByteScanner where
  /-- The position of the byte at hand. -/
  position : Nat
  /-- The position of the byte to be read next. -/
  readPosition : Nat
  /-- The byte at hand, zero behind the end of the text. -/
  byte : UInt8
  /-- The number of the line at hand. -/
  line : Nat
  deriving DecidableEq, Repr

namespace ByteScanner

variable (text : String)

/-! ### Single bytes -/

/-- The character whose code is the byte at hand. -/
def char (s : ByteScanner) : Char := Char.ofUInt8 s.byte

/-- The character whose code is the byte to be read next. -/
def peek (s : ByteScanner) : Char := Char.ofUInt8 (byteAt text s.readPosition)

/-- Reads the next byte. -/
def advance (s : ByteScanner) : ByteScanner where
  position := s.readPosition
  readPosition := s.readPosition + 1
  byte := byteAt text s.readPosition
  line := s.line

/-- Counts the byte at hand if it ends a line. -/
def countLine (s : ByteScanner) : ByteScanner :=
  if s.char = '\n' then { s with line := s.line + 1 } else s

/-- The scanner at the first byte of a text. -/
def start : ByteScanner := advance text ⟨0, 0, 0, 1⟩

/-- How often a scanner can still advance within the text. -/
def left (s : ByteScanner) : Nat :=
  text.utf8ByteSize - s.readPosition + min 1 (text.utf8ByteSize - s.position)

@[simp] theorem countLine_position (s : ByteScanner) : s.countLine.position = s.position := by
  unfold countLine
  split <;> rfl

@[simp] theorem countLine_readPosition (s : ByteScanner) :
    s.countLine.readPosition = s.readPosition := by
  unfold countLine
  split <;> rfl

@[simp] theorem countLine_char (s : ByteScanner) : s.countLine.char = s.char := by
  unfold countLine
  split <;> rfl

theorem left_advance_lt {s : ByteScanner} (h : s.position < text.utf8ByteSize) :
    (s.advance text).left text < s.left text := by
  simp only [left, advance]
  omega

@[simp] theorem left_countLine (s : ByteScanner) : s.countLine.left text = s.left text := by
  simp only [left, countLine_position, countLine_readPosition]

/-- Reads on, and counts the byte that was at hand if lines are to be counted. -/
def pass (lines : Bool) (s : ByteScanner) : ByteScanner :=
  if lines then s.countLine.advance text else s.advance text

theorem left_pass_lt (lines : Bool) {s : ByteScanner} (h : s.position < text.utf8ByteSize) :
    (s.pass text lines).left text < s.left text := by
  cases lines with
  | false => exact left_advance_lt text h
  | true =>
    have hcount : s.countLine.position < text.utf8ByteSize := by rwa [countLine_position]
    exact Nat.lt_of_lt_of_eq (left_advance_lt text hcount) (left_countLine text s)

/-! ### Loops -/

/-- Reads on as long as the byte at hand passes a test, and counts lines if it is asked to. -/
def skipWhile (lines : Bool) (p : Char → Bool) (s : ByteScanner) : ByteScanner :=
  if s.position < text.utf8ByteSize ∧ p s.char = true then
    skipWhile lines p (s.pass text lines)
  else s
termination_by s.left text
decreasing_by
  rename_i h
  exact left_pass_lt text lines h.1

/-- Reads on to the next quote or the end of the text, and counts lines. -/
def skipToQuote (s : ByteScanner) : ByteScanner :=
  let e := s.advance text
  if text.utf8ByteSize ≤ e.position then e
  else if e.countLine.char = '"' then e.countLine
  else skipToQuote e.countLine
termination_by text.utf8ByteSize - s.readPosition
decreasing_by
  rename_i h _
  rw [countLine_readPosition]
  exact Nat.sub_lt_sub_left (Nat.lt_of_not_le h) (Nat.lt_succ_self _)

/-! ### Tokens and errors -/

/-- A token with the text from one scanner to another, and the latter. -/
def token? (kindOf : String → Kind) (line : Nat) (s e : ByteScanner) :
    Option (Except ScanError Token × ByteScanner) :=
  (slice? text s.position e.position).map fun lexeme => (.ok ⟨kindOf lexeme, lexeme, line⟩, e)

/-- A kind, or the one that it becomes if an equals sign follows; the sign is then at hand. -/
def oneOrTwo (kind : Kind) (s : ByteScanner) : Kind × ByteScanner :=
  match kind.withEqual? with
  | some joined => if s.peek text = '=' then (joined, s.advance text) else (kind, s)
  | none => (kind, s)

/-- Reads a symbol of which the first character is at hand. -/
def readSymbol (kind : Kind) (s : ByteScanner) : Option (Except ScanError Token × ByteScanner) :=
  let joined := oneOrTwo text kind s
  let e := joined.2.advance text
  token? text (fun _ => joined.1) e.line s e

/-- Reads a word. -/
def readWord (s : ByteScanner) : Option (Except ScanError Token × ByteScanner) :=
  let e := s.skipWhile text false isWordPart
  token? text (fun lexeme => (Kind.ofWord? lexeme).getD .identifier) e.line s e

/-- Reads a point and the digits behind it, if there are any. -/
def skipFraction (s : ByteScanner) : ByteScanner :=
  if s.char = '.' ∧ (s.peek text).isDigit = true then
    (s.advance text).skipWhile text false Char.isDigit
  else s

/-- Reads a number.  A point belongs to it only if a digit follows. -/
def readNumber (s : ByteScanner) : Option (Except ScanError Token × ByteScanner) :=
  let e := (s.skipWhile text false Char.isDigit).skipFraction text
  token? text (fun _ => .number) e.line s e

/-- Reads a string of which the first quote is at hand. -/
def readString (s : ByteScanner) : Option (Except ScanError Token × ByteScanner) :=
  let e := s.skipToQuote text
  if text.utf8ByteSize ≤ e.position then some (.error (.unterminatedString e.line), e)
  else token? text (fun _ => .string) s.line s (e.advance text)

/-- Reads the bytes of the character at hand, which begins nothing.  Where there is none, the
replacement stands in for it. -/
def readStray (replacement : Char) (s : ByteScanner) :
    Option (Except ScanError Token × ByteScanner) :=
  (slice? text s.position text.utf8ByteSize).map fun rest =>
    let c := rest.toList.head?.getD replacement
    let e := Nat.repeat (advance text) c.utf8Size s
    (.error (.unexpectedCharacter e.line c), e)

/-- Reads what the byte at hand begins. -/
def read (replacement : Char) (s : ByteScanner) : Option (Except ScanError Token × ByteScanner) :=
  if s.char = '"' then s.readString text
  else if s.char.isDigit then s.readNumber text
  else if isWordStart s.char then s.readWord text
  else match Kind.ofSymbol? s.char with
    | some kind => s.readSymbol text kind
    | none => s.readStray text replacement

theorem left_skipWhile_le (lines : Bool) (p : Char → Bool) (s : ByteScanner) :
    (s.skipWhile text lines p).left text ≤ s.left text := by
  fun_induction skipWhile text lines p s with
  | case1 s h ih => exact Nat.le_trans ih (Nat.le_of_lt (left_pass_lt text lines h.1))
  | case2 s h => exact Nat.le_refl _

/-- The next result and the scanner behind it; no result at the end of the text, and no outcome at
all where a slice has none. -/
def next (replacement : Char) (s : ByteScanner) :
    Option (Option (Except ScanError Token) × ByteScanner) :=
  let e := s.skipWhile text true isBlank
  if text.utf8ByteSize ≤ e.position then some (none, e)
  else if e.char = '/' ∧ e.peek text = '/' then
    next replacement (e.skipWhile text false (· ≠ '\n'))
  else (e.read text replacement).map fun r => (some r.1, r.2)
termination_by s.left text
decreasing_by
  rename_i hend hslash
  have hpass : e.position < text.utf8ByteSize ∧ decide (e.char ≠ '\n') = true := by
    refine ⟨Nat.lt_of_not_le hend, ?_⟩
    rw [hslash.1]
    rfl
  calc (e.skipWhile text false (· ≠ '\n')).left text
    _ = ((e.pass text false).skipWhile text false (· ≠ '\n')).left text := by
      rw [skipWhile, if_pos hpass]
    _ ≤ (e.pass text false).left text := left_skipWhile_le text ..
    _ < e.left text := left_pass_lt text false hpass.1
    _ ≤ s.left text := left_skipWhile_le text ..

/-- The results of so many calls from the start of a text, and the scanner behind them. -/
def calls (replacement : Char) :
    Nat → Option (List (Option (Except ScanError Token)) × ByteScanner)
  | 0 => some ([], start text)
  | n + 1 =>
    (calls replacement n).bind fun done =>
      (done.2.next text replacement).map fun last => (done.1 ++ [last.1], last.2)

/-! ### Scanners between characters -/

/-- The scanner at a position. -/
def place (i line : Nat) : ByteScanner := ⟨i, i + 1, byteAt text i, line⟩

/-- The scanner behind the first characters of a text. -/
def after (front : List Char) (line : Nat) : ByteScanner := place text (bytes front).length line

section

variable {text : String} {front behind : List Char} {c : Char} {line : Nat}

theorem pass_place {lines : Bool} {i : Nat} (h : lines = true ∨ (place text i line).char ≠ '\n') :
    (place text i line).pass text lines
      = place text (i + 1) (line + if (place text i line).char == '\n' then 1 else 0) := by
  unfold pass countLine
  by_cases hfeed : (place text i line).char = '\n'
  · obtain rfl : lines = true := h.resolve_right (absurd hfeed)
    rw [if_pos rfl, if_pos hfeed, if_pos (beq_iff_eq.2 hfeed)]
    rfl
  · rw [if_neg hfeed, ite_self, if_neg (fun hbeq => hfeed (beq_iff_eq.1 hbeq))]
    rfl

/-- A loop passes the longest run of bytes that pass its test.  Unless it counts lines, there may be
no line feed among them. -/
theorem skipWhile_place {lines : Bool} {p : Char → Bool} (hlines : lines = true ∨ p '\n' = false)
    {bs : List UInt8} {i : Nat} (h : bytesFrom text i = bs) :
    (place text i line).skipWhile text lines p
      = place text (i + (bs.takeWhile fun b => p (Char.ofUInt8 b)).length)
          (line + (bs.takeWhile fun b => p (Char.ofUInt8 b)).countP
            fun b => Char.ofUInt8 b == '\n') := by
  -- The induction is on the bytes from the position on, as the loop goes from byte to byte.
  rw [skipWhile]
  induction bs generalizing i line with
  | nil =>
    have hend := bytesFrom_eq_nil h
    rw [if_neg]
    · rfl
    · intro hlt
      exact absurd hlt.1 (Nat.not_lt.2 hend)
  | cons b bs ih =>
    obtain ⟨hlt, hb, hbs⟩ := bytesFrom_eq_cons h
    have hchar : (place text i line).char = Char.ofUInt8 b := congrArg Char.ofUInt8 hb
    by_cases hp : p (Char.ofUInt8 b) = true
    · have hpass : lines = true ∨ (place text i line).char ≠ '\n' := by
        refine hlines.imp_right fun hfeed heq => ?_
        rw [← heq, hchar, hp] at hfeed
        cases hfeed
      have hrun : (b :: bs).takeWhile (fun b => p (Char.ofUInt8 b))
          = b :: bs.takeWhile fun b => p (Char.ofUInt8 b) := List.takeWhile_cons_of_pos hp
      rw [if_pos ⟨hlt, by rwa [hchar]⟩, pass_place hpass, skipWhile, ih hbs, hchar, hrun,
        List.length_cons, List.countP_cons]
      congr 1 <;> omega
    · have hrun : (b :: bs).takeWhile (fun b => p (Char.ofUInt8 b)) = [] :=
        List.takeWhile_cons_of_neg hp
      rw [if_neg, hrun]
      · rfl
      · intro hpos
        rw [hchar] at hpos
        exact hp hpos.2

/-- A loop passes the longest run of characters that pass its test. -/
theorem skipWhile_after {lines : Bool} {p : Char → Bool} (hp : Bytewise p)
    (hlines : lines = true ∨ p '\n' = false) (h : text.toList = front ++ behind) :
    (after text front line).skipWhile text lines p
      = after text (front ++ behind.takeWhile p) (line + (behind.takeWhile p).count '\n') := by
  rw [after, skipWhile_place hlines (bytesFrom_length h), hp.takeWhile_bytes, countP_bytes, after,
    bytes_append, List.length_append]

@[simp] theorem after_line : (after text front line).line = line := rfl

/-! ### The character at hand -/

theorem not_le_position (h : text.toList = front ++ c :: behind) :
    ¬ text.utf8ByteSize ≤ (after text front line).position :=
  Nat.not_le.2 (byteAt_length h).1

theorem le_position (h : text.toList = front) :
    text.utf8ByteSize ≤ (after text front line).position := by
  subst h
  exact Nat.le_of_eq (length_bytes text).symm

/-- A test on the byte at hand is one on the character that begins there. -/
theorem test_char {α : Type} {q : Char → α} (hq : Bytewise q)
    (h : text.toList = front ++ c :: behind) : q (after text front line).char = q c :=
  hq.ofUInt8 (byteAt_length h).2

theorem char_end (h : text.toList = front) : (after text front line).char = '\x00' := by
  have hzero : byteAt text (after text front line).position = 0 := byteAt_of_le (le_position h)
  exact congrArg Char.ofUInt8 hzero

/-- A test that fails at the end of the text is one on the first character of what follows. -/
theorem test_char_eq_any {q : Char → Bool} (hq : Bytewise q) (hend : q '\x00' = false)
    (h : text.toList = front ++ behind) :
    q (after text front line).char = behind.head?.any q := by
  cases behind with
  | nil =>
    rw [List.append_nil] at h
    rw [char_end h, hend]
    rfl
  | cons c behind => exact test_char hq h

theorem char_eq_iff {a : Char} (ha : a.toNat < 128) (hend : a ≠ '\x00')
    (h : text.toList = front ++ behind) :
    (after text front line).char = a ↔ behind.head? = some a := by
  rw [← beq_iff_eq, test_char_eq_any (bytewise_beq ha) (beq_eq_false_iff_ne.2 hend.symm) h,
    Option.any_eq_true]
  simp

theorem length_append_ascii (hc : c.toNat < 128) :
    (bytes (front ++ [c])).length = (bytes front).length + 1 := by
  obtain ⟨b, hb, -⟩ := utf8EncodeChar_of_lt hc
  simp [hb]

theorem advance_after (hc : c.toNat < 128) :
    (after text front line).advance text = after text (front ++ [c]) line := by
  rw [after, after, length_append_ascii hc]
  rfl

theorem peek_after (hc : c.toNat < 128) :
    (after text front line).peek text = (after text (front ++ [c]) line).char := by
  rw [← advance_after hc]
  rfl

end

end ByteScanner

end Scriptlet
