import Scriptlet.Token.Kind

/-!
# Cutting a source text into segments

A source text is cut from left to right into segments: runs of blanks, comments, lexemes, single
characters that begin nothing, and a string that is never closed.  Each segment is the longest one
that can start where it starts, and the texts of the segments are the whole source again.

## Main definitions

* `Segment` — a piece of source text with its sort; `Segment.text` is the piece.
* `Segment.first` — the segment at the start of a nonempty text, and the rest.
* `segments` — all segments of a text.

## Main results

* `Segment.first_text_append` — the first segment and the rest are the text.
* `segments_text` — the segments are the text.
-/

namespace Scriptlet

/-- A piece of source text. -/
inductive Segment
  /-- A run of blanks. -/
  | blank (text : List Char)
  /-- Two slashes and all that follows them on their line. -/
  | comment (text : List Char)
  /-- A token. -/
  | lexeme (kind : Kind) (text : List Char)
  /-- A character that begins no other segment. -/
  | stray (c : Char)
  /-- A quote without a later one, and all that follows it. -/
  | unclosed (text : List Char)
  deriving DecidableEq, Repr

/-- The blanks: space, tab, line feed, form feed and carriage return. -/
def isBlank (c : Char) : Bool :=
  c == ' ' || c == '\t' || c == '\n' || c == '\x0c' || c == '\r'

/-- The characters that may begin a word: the ASCII letters and the underscore. -/
def isWordStart (c : Char) : Bool := c.isAlpha || c == '_'

/-- The characters that may continue a word: also the ASCII digits. -/
def isWordPart (c : Char) : Bool := c.isAlphanum || c == '_'

/-- The kind of a lexeme of one character that is neither a word nor a number. -/
def Kind.ofSymbol? : Char → Option Kind
  | '(' => some .leftParen
  | ')' => some .rightParen
  | '{' => some .leftBrace
  | '}' => some .rightBrace
  | ',' => some .comma
  | '.' => some .dot
  | ';' => some .semicolon
  | '-' => some .minus
  | '+' => some .plus
  | '*' => some .star
  | '/' => some .slash
  | '!' => some .bang
  | '=' => some .equal
  | '<' => some .less
  | '>' => some .greater
  | _ => none

/-- The kind that a symbol becomes when an equals sign follows it. -/
def Kind.withEqual? : Kind → Option Kind
  | .bang => some .bangEqual
  | .equal => some .equalEqual
  | .less => some .lessEqual
  | .greater => some .greaterEqual
  | _ => none

namespace Segment

/-- The source text of a segment. -/
def text : Segment → List Char
  | blank text => text
  | comment text => text
  | lexeme _ text => text
  | stray c => [c]
  | unclosed text => text

/-- The segment that begins with a quote: up to the next quote, over as many lines as it takes. -/
def quoted (cs : List Char) : Segment × List Char :=
  match cs.dropWhile (· ≠ '"') with
  | q :: rest => (lexeme .string ('"' :: cs.takeWhile (· ≠ '"') ++ [q]), rest)
  | [] => (unclosed ('"' :: cs), [])

/-- The segment that begins with the digit `c`: digits, and a point with at least one digit behind
it. -/
def numeral (c : Char) (cs : List Char) : Segment × List Char :=
  let whole := c :: cs.takeWhile Char.isDigit
  match cs.dropWhile Char.isDigit with
  | '.' :: rest =>
    if rest.takeWhile Char.isDigit = [] then (lexeme .number whole, '.' :: rest)
    else
      (lexeme .number (whole ++ '.' :: rest.takeWhile Char.isDigit), rest.dropWhile Char.isDigit)
  | rest => (lexeme .number whole, rest)

/-- The segment that begins with the letter or underscore `c`: a reserved word or an identifier. -/
def word (c : Char) (cs : List Char) : Segment × List Char :=
  let text := c :: cs.takeWhile isWordPart
  (lexeme ((Kind.ofWord? (String.ofList text)).getD .identifier) text, cs.dropWhile isWordPart)

/-- The segment that begins with any other character: a symbol, together with an equals sign where
the two are a symbol of their own, or a stray character. -/
def symbol (c : Char) (cs : List Char) : Segment × List Char :=
  match Kind.ofSymbol? c with
  | none => (stray c, cs)
  | some kind =>
    match kind.withEqual?, cs with
    | some joined, '=' :: rest => (lexeme joined [c, '='], rest)
    | _, _ => (lexeme kind [c], cs)

/-- The segment at the start of the text `c :: cs`, and what follows it. -/
def first (c : Char) (cs : List Char) : Segment × List Char :=
  if isBlank c then (blank (c :: cs.takeWhile isBlank), cs.dropWhile isBlank)
  else if c = '/' ∧ cs.head? = some '/' then
    (comment (c :: cs.takeWhile (· ≠ '\n')), cs.dropWhile (· ≠ '\n'))
  else if c = '"' then quoted cs
  else if c.isDigit then numeral c cs
  else if isWordStart c then word c cs
  else symbol c cs

theorem quoted_text_append (cs : List Char) :
    (quoted cs).1.text ++ (quoted cs).2 = '"' :: cs := by
  have h := List.takeWhile_append_dropWhile (p := fun c => decide (c ≠ '"')) (l := cs)
  unfold quoted
  split
  · rename_i q rest hd
    rw [hd] at h
    simpa [text] using h
  · simp [text]

theorem numeral_text_append (c : Char) (cs : List Char) :
    (numeral c cs).1.text ++ (numeral c cs).2 = c :: cs := by
  have h := List.takeWhile_append_dropWhile (p := Char.isDigit) (l := cs)
  unfold numeral
  dsimp only
  split
  · rename_i rest hd
    rw [hd] at h
    have hr := List.takeWhile_append_dropWhile (p := Char.isDigit) (l := rest)
    split
    · simp [text, h]
    · simp [text, hr, h]
  · simp [text, h]

theorem word_text_append (c : Char) (cs : List Char) :
    (word c cs).1.text ++ (word c cs).2 = c :: cs := by
  simp [word, text]

theorem symbol_text_append (c : Char) (cs : List Char) :
    (symbol c cs).1.text ++ (symbol c cs).2 = c :: cs := by
  unfold symbol
  split
  · simp [text]
  · split <;> simp [text]

/-- The first segment of a text and the rest are the whole text. -/
theorem first_text_append (c : Char) (cs : List Char) :
    (first c cs).1.text ++ (first c cs).2 = c :: cs := by
  unfold first
  split
  · simp [text]
  · split
    · simp only [text, List.cons_append, List.takeWhile_append_dropWhile]
    · split
      · rename_i hq
        rw [quoted_text_append, hq]
      · split
        · exact numeral_text_append c cs
        · split
          · exact word_text_append c cs
          · exact symbol_text_append c cs

theorem quoted_text_ne_nil (cs : List Char) : (quoted cs).1.text ≠ [] := by
  unfold quoted
  split <;> simp [text]

theorem numeral_text_ne_nil (c : Char) (cs : List Char) : (numeral c cs).1.text ≠ [] := by
  unfold numeral
  dsimp only
  split
  · split <;> simp [text]
  · simp [text]

theorem symbol_text_ne_nil (c : Char) (cs : List Char) : (symbol c cs).1.text ≠ [] := by
  unfold symbol
  split
  · simp [text]
  · split <;> simp [text]

theorem first_text_ne_nil (c : Char) (cs : List Char) : (first c cs).1.text ≠ [] := by
  unfold first
  split
  · simp [text]
  · split
    · simp [text]
    · split
      · exact quoted_text_ne_nil cs
      · split
        · exact numeral_text_ne_nil c cs
        · split
          · simp [word, text]
          · exact symbol_text_ne_nil c cs

/-- The rest behind the first segment is shorter than the text. -/
theorem first_rest_length (c : Char) (cs : List Char) :
    (first c cs).2.length < (c :: cs).length := by
  have h := congrArg List.length (first_text_append c cs)
  have hpos := List.length_pos_iff.mpr (first_text_ne_nil c cs)
  rw [List.length_append] at h
  omega

end Segment

/-- The segments of a text, from left to right. -/
def segments : List Char → List Segment
  | [] => []
  | c :: cs => (Segment.first c cs).1 :: segments (Segment.first c cs).2
termination_by cs => cs.length
decreasing_by exact Segment.first_rest_length c cs

/-- The texts of the segments are the text. -/
theorem segments_text (cs : List Char) : (segments cs).flatMap Segment.text = cs := by
  fun_induction segments cs with
  | case1 => rfl
  | case2 c cs ih => rw [List.flatMap_cons, ih, Segment.first_text_append]

end Scriptlet
