import Scriptlet.Proofs.Source.ByteScanner

/-!
# Reading a segment byte by byte

Each sort of segment has a reader of its own.  Started behind the characters in front of a segment,
it yields what the segment stands for and leaves the scanner behind the segment, and its slices do
not split characters.

## Main definitions

* `ByteScanner.Reads` — an outcome is that of reading a segment.

## Main results

* `ByteScanner.reads_first` — every segment but blanks and comments is read as such.
-/

namespace Scriptlet

namespace ByteScanner

variable {text : String} {front behind : List Char} {c : Char} {line : Nat}

/-- The outcome of reading a segment that stands behind the first characters of a text: what the
segment stands for, and the scanner behind it. -/
def Reads (text : String) (front : List Char) (line : Nat) (seg : Segment)
    (outcome : Option (Except ScanError Token × ByteScanner)) : Prop :=
  ∃ r, seg.result? line = some r ∧
    outcome = some (r, after text (front ++ seg.text) (line + seg.newlines))

/-- A token is cut out between two characters. -/
theorem reads_token? {kindOf : String → Kind} {kind : Kind} {lexeme : List Char}
    (hkind : kindOf (String.ofList lexeme) = kind) (h : text.toList = front ++ lexeme ++ behind)
    {e : ByteScanner} (he : e = after text (front ++ lexeme) (line + lexeme.count '\n')) :
    Reads text front line (.lexeme kind lexeme)
      (token? text kindOf line (after text front line) e) := by
  subst hkind he
  refine ⟨_, rfl, ?_⟩
  have hslice : slice? text (after text front line).position
      (after text (front ++ lexeme) (line + lexeme.count '\n')).position
        = some (String.ofList lexeme) := slice?_eq_some h
  rw [token?, hslice]
  rfl

theorem skipWhile_line (p : Char → Bool) (s : ByteScanner) :
    (s.skipWhile text false p).line = s.line := by
  fun_induction skipWhile text false p s with
  | case1 s _ ih => exact ih
  | case2 s _ => rfl

theorem reads_word (hc : isWordStart c = true) (h : text.toList = front ++ c :: behind) :
    Reads text front line (Segment.word c behind).1 ((after text front line).readWord text) := by
  have hpart : isWordPart c = true := by
    rw [isWordPart_iff]
    exact (isWordStart_iff.1 hc).imp_left fun halpha => Bool.or_eq_true_iff.2 (.inl halpha)
  have hend : (after text front line).skipWhile text false isWordPart = _ :=
    skipWhile_after bytewise_isWordPart (.inr rfl) h
  rw [List.takeWhile_cons_of_pos hpart] at hend
  rw [← Segment.word_text_append, ← List.append_assoc] at h
  rw [readWord, skipWhile_line, after_line]
  exact reads_token? (by rfl) h hend

/-- The point and the digits at the start of a text that starts so. -/
def fraction : List Char → List Char
  | '.' :: cs => if cs.takeWhile Char.isDigit = [] then [] else '.' :: cs.takeWhile Char.isDigit
  | _ => []

theorem numeral_fst (c : Char) (cs : List Char) :
    (Segment.numeral c cs).1 = .lexeme .number
      (c :: cs.takeWhile Char.isDigit ++ fraction (cs.dropWhile Char.isDigit)) := by
  unfold Segment.numeral
  generalize cs.dropWhile Char.isDigit = rest
  dsimp only
  split
  · rw [fraction]
    split
    · rw [List.append_nil]
    · rfl
  · rename_i hpoint
    rw [fraction.eq_2 rest hpoint, List.append_nil]

theorem takeWhile_eq_nil_iff {p : Char → Bool} {cs : List Char} :
    cs.takeWhile p = [] ↔ cs.head?.any p = false := by
  cases cs with
  | nil => simp
  | cons c cs => simp [List.takeWhile_cons]

theorem skipFraction_after (h : text.toList = front ++ behind) :
    (after text front line).skipFraction text
      = after text (front ++ fraction behind) (line + (fraction behind).count '\n') := by
  have hascii : Char.toNat '.' < 128 := by decide
  have hpoint : (after text front line).char = '.' ↔ behind.head? = some '.' :=
    char_eq_iff hascii (by decide) h
  unfold fraction
  split
  · rename_i rest
    have hbehind : text.toList = front ++ ['.'] ++ rest := by rw [h, List.append_assoc]; rfl
    have hdigit : ((after text front line).peek text).isDigit = rest.head?.any Char.isDigit := by
      rw [peek_after hascii]
      exact test_char_eq_any bytewise_isDigit rfl hbehind
    split
    · rename_i hnone
      -- A point without a digit behind it is left for the next call.
      rw [skipFraction, if_neg]
      · simp
      · rw [hdigit, takeWhile_eq_nil_iff.1 hnone]
        simp
    · rename_i hsome
      rw [takeWhile_eq_nil_iff, Bool.not_eq_false] at hsome
      rw [skipFraction, if_pos ⟨hpoint.2 rfl, hdigit.trans hsome⟩, advance_after hascii,
        skipWhile_after bytewise_isDigit (.inr rfl) hbehind, List.append_assoc]
      rfl
  · rename_i hnot
    rw [skipFraction, if_neg]
    · simp
    · intro hpos
      obtain ⟨rest, rfl⟩ := List.head?_eq_some_iff.1 (hpoint.1 hpos.1)
      exact hnot rest rfl

theorem skipFraction_line (s : ByteScanner) : (s.skipFraction text).line = s.line := by
  unfold skipFraction
  split
  · exact skipWhile_line _ (s.advance text)
  · rfl

theorem reads_numeral (hc : c.isDigit = true) (h : text.toList = front ++ c :: behind) :
    Reads text front line (Segment.numeral c behind).1
      ((after text front line).readNumber text) := by
  have hwhole : (after text front line).skipWhile text false Char.isDigit = _ :=
    skipWhile_after bytewise_isDigit (.inr rfl) h
  rw [List.takeWhile_cons_of_pos hc] at hwhole
  have hrest : text.toList
      = front ++ (c :: behind.takeWhile Char.isDigit) ++ behind.dropWhile Char.isDigit := by
    rw [h, List.append_assoc, List.cons_append, List.takeWhile_append_dropWhile]
  rw [← Segment.numeral_text_append, ← List.append_assoc, numeral_fst] at h
  rw [numeral_fst, readNumber, skipFraction_line, skipWhile_line, after_line]
  refine reads_token? (by rfl) h ?_
  rw [hwhole, skipFraction_after hrest, Segment.text, List.append_assoc, List.count_append,
    Nat.add_assoc]

theorem skipToQuote_eq (s : ByteScanner) :
    s.skipToQuote text = (s.advance text).skipWhile text true (· ≠ '"') := by
  fun_induction skipToQuote text s with
  | case1 s e h =>
    rw [skipWhile, if_neg]
    exact fun hlt => Nat.not_lt.2 h hlt.1
  | case2 s e h hquote =>
    rw [countLine_char] at hquote
    rw [skipWhile, if_neg (by simp [e, hquote]), countLine, if_neg (by simp [hquote])]
  | case3 s e h hquote ih =>
    rw [countLine_char] at hquote
    rw [ih]
    conv => rhs; rw [skipWhile, if_pos ⟨Nat.lt_of_not_le h, decide_eq_true hquote⟩]
    rfl

theorem skipToQuote_after (h : text.toList = front ++ ['"'] ++ behind) :
    (after text front line).skipToQuote text
      = after text (front ++ ['"'] ++ behind.takeWhile (· ≠ '"'))
          (line + (behind.takeWhile (· ≠ '"')).count '\n') := by
  have hascii : Char.toNat '"' < 128 := by decide
  rw [skipToQuote_eq, advance_after hascii, skipWhile_after (bytewise_ne hascii) (.inl rfl) h]

theorem reads_quoted (h : text.toList = front ++ '"' :: behind) :
    Reads text front line (Segment.quoted behind).1
      ((after text front line).readString text) := by
  have hopen : text.toList = front ++ ['"'] ++ behind := by rw [h, List.append_assoc]; rfl
  have hinner : text.toList
      = front ++ ['"'] ++ behind.takeWhile (· ≠ '"') ++ behind.dropWhile (· ≠ '"') := by
    rw [hopen, List.append_assoc _ (behind.takeWhile _), List.takeWhile_append_dropWhile]
  unfold readString Segment.quoted
  rw [skipToQuote_after hopen]
  dsimp only
  cases hdrop : behind.dropWhile (· ≠ '"') with
  | nil =>
    rw [hdrop, List.append_nil] at hinner
    -- No quote follows: the string goes on to the end of the text.
    have hall : behind.takeWhile (· ≠ '"') = behind := by
      have happend := List.takeWhile_append_dropWhile (p := (· ≠ '"')) (l := behind)
      rwa [hdrop, List.append_nil] at happend
    rw [if_pos (le_position hinner), hall]
    refine ⟨_, rfl, ?_⟩
    rw [List.append_assoc]
    rfl
  | cons q rest =>
    have hq := not_begins_dropWhile (· ≠ '"') behind
    rw [hdrop, begins_cons_iff] at hq
    obtain rfl : q = '"' := by simpa using hq
    rw [hdrop] at hinner
    have hascii : Char.toNat '"' < 128 := by decide
    rw [if_neg (not_le_position hinner), advance_after hascii]
    have hlexeme : text.toList = front ++ ('"' :: behind.takeWhile (· ≠ '"') ++ ['"']) ++ rest := by
      rw [hinner]
      simp
    refine reads_token? (by rfl) hlexeme ?_
    simp

/-- A character that stands for a symbol is ASCII, and does not end a line. -/
theorem ascii_of_ofSymbol? {kind : Kind} (h : Kind.ofSymbol? c = some kind) :
    c.toNat < 128 ∧ [c].count '\n' = 0 := by
  constructor
  · apply bytewise_ofSymbol?.lt_of_ne
    rw [h]
    exact Option.some_ne_none kind
  · rw [List.count_eq_zero, List.mem_singleton]
    rintro rfl
    cases h

theorem reads_symbol {kind : Kind} (hkind : Kind.ofSymbol? c = some kind)
    (h : text.toList = front ++ c :: behind) :
    Reads text front line (Segment.symbol c behind).1
      ((after text front line).readSymbol text kind) := by
  obtain ⟨hascii, hfeed⟩ := ascii_of_ofSymbol? hkind
  have hsingle : text.toList = front ++ [c] ++ behind := by rw [h, List.append_assoc]; rfl
  have halone : (after text front line).advance text
      = after text (front ++ [c]) (line + [c].count '\n') := by
    rw [advance_after hascii, hfeed]
    rfl
  unfold readSymbol oneOrTwo Segment.symbol
  rw [hkind]
  dsimp only
  cases hjoined : kind.withEqual? with
  | none => exact reads_token? (by rfl) hsingle halone
  | some joined =>
    have hequal : Char.toNat '=' < 128 := by decide
    have hpeek : (after text front line).peek text = '=' ↔ behind.head? = some '=' := by
      rw [peek_after hascii]
      exact char_eq_iff hequal (by decide) hsingle
    dsimp only
    split
    · rename_i rest heq
      cases heq
      -- An equals sign follows and is part of the token.
      have hboth : text.toList = front ++ [c, '='] ++ rest := by rw [h, List.append_assoc]; rfl
      have hcount : [c, '='].count '\n' = 0 := by
        rw [← List.singleton_append, List.count_append, hfeed]
        rfl
      rw [if_pos (hpeek.2 rfl)]
      refine reads_token? (by rfl) hboth ?_
      dsimp only
      rw [advance_after hascii, advance_after hequal, List.append_assoc, hcount]
      rfl
    · rename_i hnot
      rw [if_neg]
      · exact reads_token? (by rfl) hsingle halone
      · intro heq
        obtain ⟨rest, rfl⟩ := List.head?_eq_some_iff.1 (hpeek.1 heq)
        exact hnot joined rest rfl rfl

theorem repeat_advance_place (n i : Nat) :
    Nat.repeat (advance text) n (place text i line) = place text (i + n) line := by
  induction n with
  | zero => rfl
  | succ n ih =>
    rw [Nat.repeat, ih]
    rfl

/-- Reading all bytes of a character passes the character. -/
theorem repeat_advance_after (front : List Char) (c : Char) (line : Nat) :
    Nat.repeat (advance text) c.utf8Size (after text front line)
      = after text (front ++ [c]) line := by
  have hsize : (bytes (front ++ [c])).length = (bytes front).length + c.utf8Size := by
    simp [String.length_utf8EncodeChar]
  rw [after, repeat_advance_place, after, hsize]

theorem reads_stray (hfeed : c ≠ '\n') (h : text.toList = front ++ c :: behind)
    (replacement : Char) :
    Reads text front line (.stray c) ((after text front line).readStray text replacement) := by
  have hall : text.toList = front ++ (c :: behind) ++ [] := by rw [h, List.append_nil]
  have hslice : slice? text (after text front line).position _ = _ := slice?_eq_some hall
  rw [← List.append_nil (front ++ _), ← hall, length_bytes] at hslice
  have hcount : [c].count '\n' = 0 := by
    rw [List.count_eq_zero, List.mem_singleton]
    exact hfeed.symm
  refine ⟨_, rfl, ?_⟩
  rw [readStray, hslice]
  simp only [Option.map_some, String.toList_ofList, List.head?_cons, Option.getD_some,
    repeat_advance_after, after_line, Segment.text, Segment.newlines, hcount, Nat.add_zero]

/-- A segment that is neither a blank nor a comment is read as such. -/
theorem reads_first (hblank : isBlank c = false)
    (hcomment : ¬ (c = '/' ∧ behind.head? = some '/')) (h : text.toList = front ++ c :: behind)
    (replacement : Char) :
    Reads text front line (Segment.first c behind).1
      ((after text front line).read text replacement) := by
  have hquote : (after text front line).char = '"' ↔ c = '"' := by
    rw [char_eq_iff (by decide) (by decide) h]
    simp
  have hdigit : (after text front line).char.isDigit = c.isDigit := test_char bytewise_isDigit h
  have hword : isWordStart (after text front line).char = isWordStart c :=
    test_char bytewise_isWordStart h
  have hsymbol : Kind.ofSymbol? (after text front line).char = Kind.ofSymbol? c :=
    test_char bytewise_ofSymbol? h
  unfold read Segment.first
  rw [if_neg (by simp [hblank]), if_neg hcomment, hdigit, hword, hsymbol]
  by_cases hstring : c = '"'
  · subst hstring
    rw [if_pos (hquote.2 rfl), if_pos rfl]
    exact reads_quoted h
  rw [if_neg (mt hquote.1 hstring), if_neg hstring]
  by_cases hnumber : c.isDigit = true
  · rw [if_pos hnumber, if_pos hnumber]
    exact reads_numeral hnumber h
  rw [if_neg hnumber, if_neg hnumber]
  by_cases hstart : isWordStart c = true
  · rw [if_pos hstart, if_pos hstart]
    exact reads_word hstart h
  rw [if_neg hstart, if_neg hstart]
  cases hkind : Kind.ofSymbol? c with
  | some kind => exact reads_symbol hkind h
  | none =>
    have hfeed : c ≠ '\n' := by
      rintro rfl
      cases hblank
    rw [Segment.symbol, hkind]
    exact reads_stray hfeed h replacement

end ByteScanner

end Scriptlet
