import Scriptlet.Proofs.Source.ByteScanner.Read

/-!
# Calls of a byte scanner

A call skips blanks and comments and reads the segment behind them.  So it is a call of the scanner
that goes over segments, and the two stay at the same place in the text.  What is known of the
latter is known of the byte scanner, and its positions are known from the segments.

## Main definitions

* `ByteScanner.Tracks` — a byte scanner and a scanner stand at the same place.
* `ByteScanner.Agrees` — their next calls yield the same.
* `ByteScanner.Lawful` — the state between two calls.

## Main results

* `ByteScanner.agrees_after` — a call of the byte scanner is a call of the scanner.
* `ByteScanner.calls_safe` — **scanning byte by byte is safe and makes progress.**
-/

namespace Scriptlet

namespace ByteScanner

section

variable {text : String} {front behind : List Char} {c : Char} {line : Nat}

/-! ### One call -/

theorem skipWhile_skipWhile (lines : Bool) (p : Char → Bool) (s : ByteScanner) :
    (s.skipWhile text lines p).skipWhile text lines p = s.skipWhile text lines p := by
  fun_induction skipWhile text lines p s with
  | case1 s _ ih => exact ih
  | case2 s h => rw [skipWhile, if_neg h]

theorem next_skipWhile (replacement : Char) (s : ByteScanner) :
    (s.skipWhile text true isBlank).next text replacement = s.next text replacement := by
  rw [next, skipWhile_skipWhile]
  conv => rhs; rw [next]

/-- A byte scanner stands where a scanner stands: behind the same characters of the text and on the
same line. -/
def Tracks (text : String) (b : ByteScanner) (s : Scanner) : Prop :=
  ∃ front behind, text.toList = front ++ behind ∧ b = after text front s.line ∧
    s.pending = segments behind

/-- A call of a byte scanner is a call of a scanner, whatever stands in for a missing character.  It
never goes back, and a result takes at least one byte. -/
def Agrees (text : String) (b : ByteScanner) (s : Scanner) : Prop :=
  ∃ b', (∀ replacement, b.next text replacement = some (s.next.1, b')) ∧ Tracks text b' s.next.2 ∧
    b.position ≤ b'.position ∧ (s.next.1 ≠ none → b.position < b'.position)

/-- What yields nothing may be skipped. -/
theorem Agrees.of_skip {b skipped : ByteScanner} {s s' : Scanner} (h : Agrees text skipped s')
    (hb : ∀ replacement, b.next text replacement = skipped.next text replacement)
    (hs : s.next = s'.next) (hle : b.position ≤ skipped.position) : Agrees text b s := by
  obtain ⟨b', hnext, htracks, hle', hlt⟩ := h
  rw [← hs] at hnext htracks hlt
  exact ⟨b', fun replacement => (hb replacement).trans (hnext replacement), htracks,
    Nat.le_trans hle hle', fun hne => Nat.lt_of_le_of_lt hle (hlt hne)⟩

theorem position_le_append (front text' : List Char) (line' : Nat) :
    (after text front line).position ≤ (after text (front ++ text') line').position := by
  simp [after, place]

/-- Two slashes are seen byte by byte. -/
theorem slashes_iff (h : text.toList = front ++ c :: behind) :
    ((after text front line).char = '/' ∧ (after text front line).peek text = '/') ↔
      c = '/' ∧ behind.head? = some '/' := by
  have hascii : Char.toNat '/' < 128 := by decide
  have hchar : (after text front line).char = '/' ↔ c = '/' := by
    rw [char_eq_iff hascii (by decide) h]
    simp
  rw [hchar]
  refine and_congr_right ?_
  rintro rfl
  rw [peek_after hascii]
  apply char_eq_iff hascii (by decide)
  rw [h, List.append_assoc]
  rfl

theorem skipWhile_eq_self (hblank : ¬ isBlank c = true)
    (h : text.toList = front ++ c :: behind) :
    (after text front line).skipWhile text true isBlank = after text front line := by
  rw [skipWhile_after bytewise_isBlank (.inl rfl) h, List.takeWhile_cons_of_neg hblank,
    List.append_nil, List.count_nil, Nat.add_zero]

/-! The text behind a first segment is `(Segment.first c behind).2`.  What a call yields from there
on is carried over the segment. -/

theorem agrees_blank (hblank : isBlank c = true) (h : text.toList = front ++ c :: behind)
    (hrest : Agrees text
      (after text (front ++ (Segment.first c behind).1.text)
        (line + (Segment.first c behind).1.newlines))
      ⟨segments (Segment.first c behind).2, line + (Segment.first c behind).1.newlines⟩) :
    Agrees text (after text front line) ⟨segments (c :: behind), line⟩ := by
  have hfirst : Segment.first c behind
      = (.blank (c :: behind.takeWhile isBlank), behind.dropWhile isBlank) := if_pos hblank
  have hskip : (after text front line).skipWhile text true isBlank = _ :=
    skipWhile_after bytewise_isBlank (.inl rfl) h
  rw [List.takeWhile_cons_of_pos hblank] at hskip
  rw [hfirst] at hrest
  rw [segments, hfirst]
  refine hrest.of_skip ?_ rfl (position_le_append ..)
  intro replacement
  rw [← next_skipWhile, hskip]
  rfl

theorem agrees_comment (hblank : ¬ isBlank c = true)
    (hcomment : c = '/' ∧ behind.head? = some '/') (h : text.toList = front ++ c :: behind)
    (hrest : Agrees text
      (after text (front ++ (Segment.first c behind).1.text)
        (line + (Segment.first c behind).1.newlines))
      ⟨segments (Segment.first c behind).2, line + (Segment.first c behind).1.newlines⟩) :
    Agrees text (after text front line) ⟨segments (c :: behind), line⟩ := by
  have hfirst : Segment.first c behind
      = (.comment (c :: behind.takeWhile (· ≠ '\n')), behind.dropWhile (· ≠ '\n')) := by
    rw [Segment.first, if_neg hblank, if_pos hcomment]
  have hpass : (after text front line).skipWhile text false (· ≠ '\n') = _ :=
    skipWhile_after (bytewise_ne (by decide)) (.inr rfl) h
  rw [List.takeWhile_cons_of_pos (by simp [hcomment.1])] at hpass
  rw [hfirst] at hrest
  rw [segments, hfirst]
  refine hrest.of_skip ?_ rfl (position_le_append ..)
  intro replacement
  rw [next, skipWhile_eq_self hblank h]
  dsimp only
  rw [if_neg (not_le_position h), if_pos ((slashes_iff h).2 hcomment), hpass]
  rfl

/-- A call ends with any other segment. -/
theorem agrees_reads (hblank : ¬ isBlank c = true)
    (hcomment : ¬ (c = '/' ∧ behind.head? = some '/')) (h : text.toList = front ++ c :: behind) :
    Agrees text (after text front line) ⟨segments (c :: behind), line⟩ := by
  have hsplit : text.toList
      = front ++ (Segment.first c behind).1.text ++ (Segment.first c behind).2 := by
    rw [List.append_assoc, Segment.first_text_append, h]
  have hread (replacement : Char) : Reads text front line (Segment.first c behind).1
      ((after text front line).read text replacement) :=
    reads_first (Bool.eq_false_iff.2 hblank) hcomment h replacement
  -- The result does not depend on the replacement, so one of them is enough to know it.
  obtain ⟨r, hresult, -⟩ := hread c
  have hnext : (Scanner.mk (segments (c :: behind)) line).next
      = (some r, ⟨segments (Segment.first c behind).2,
          line + (Segment.first c behind).1.newlines⟩) := by
    rw [segments, Scanner.next, Scanner.nextFrom, hresult]
  rw [Agrees, hnext]
  refine ⟨after text (front ++ (Segment.first c behind).1.text)
    (line + (Segment.first c behind).1.newlines), ?_, ⟨_, _, hsplit, rfl, rfl⟩,
    position_le_append .., fun _ => ?_⟩
  · intro replacement
    obtain ⟨r', hr', hread'⟩ := hread replacement
    obtain rfl : r = r' := Option.some.inj (hresult.symm.trans hr')
    rw [next, skipWhile_eq_self hblank h]
    dsimp only
    rw [if_neg (not_le_position h), if_neg (mt (slashes_iff h).1 hcomment), hread']
    rfl
  · have hpos := length_bytes_pos (Segment.first_text_ne_nil c behind)
    simpa [after, place] using hpos

/-- **A call of the byte scanner is a call of the scanner.** -/
theorem agrees_after (h : text.toList = front ++ behind) :
    Agrees text (after text front line) ⟨segments behind, line⟩ := by
  induction behind using segments.induct generalizing front line with
  | case1 =>
    have hskip : (after text front line).skipWhile text true isBlank = _ :=
      skipWhile_after bytewise_isBlank (.inl rfl) h
    rw [List.takeWhile_nil, List.append_nil] at hskip
    have hnext : (Scanner.mk (segments []) line).next = (none, ⟨[], line⟩) := by
      rw [segments]
      rfl
    rw [Agrees, hnext]
    refine ⟨after text front line, ?_, ⟨front, [], h, rfl, ?_⟩, Nat.le_refl _, absurd rfl⟩
    · intro replacement
      rw [next, hskip]
      rw [List.append_nil] at h
      exact if_pos (le_position h)
    · rw [segments]
  | case2 c cs ih =>
    have hsplit : text.toList
        = front ++ (Segment.first c cs).1.text ++ (Segment.first c cs).2 := by
      rw [List.append_assoc, Segment.first_text_append, h]
    by_cases hblank : isBlank c = true
    · exact agrees_blank hblank h (ih hsplit)
    · by_cases hcomment : c = '/' ∧ cs.head? = some '/'
      · exact agrees_comment hblank hcomment h (ih hsplit)
      · exact agrees_reads hblank hcomment h

end

/-! ### All calls -/

/-- The state of a byte scanner between two calls. -/
structure Lawful (text : String) (b : ByteScanner) : Prop where
  /-- The byte at hand is one of the text, or there is none left. -/
  position_le : b.position ≤ text.utf8ByteSize
  /-- The next byte is the one behind it. -/
  readPosition_eq : b.readPosition = b.position + 1
  /-- The byte at hand is the one at the position, and zero at the end of the text. -/
  byte_eq : b.byte = byteAt text b.position
  /-- No character is split. -/
  isValid : String.Pos.Raw.IsValid text ⟨b.position⟩

theorem Tracks.lawful {text : String} {b : ByteScanner} {s : Scanner} (h : Tracks text b s) :
    b.Lawful text := by
  obtain ⟨front, behind, htext, rfl, -⟩ := h
  exact ⟨length_le_utf8ByteSize htext, rfl, rfl, isValid_length htext⟩

theorem Tracks.agrees {text : String} {b : ByteScanner} {s : Scanner} (h : Tracks text b s) :
    Agrees text b s := by
  obtain ⟨front, behind, htext, rfl, hpending⟩ := h
  obtain ⟨pending, line⟩ := s
  obtain rfl : pending = segments behind := hpending
  exact agrees_after htext

theorem tracks_start (text : String) : Tracks text (start text) (Scanner.ofText text) :=
  ⟨[], text.toList, rfl, rfl, rfl⟩

end ByteScanner

namespace Scanner

/-- The results of so many calls, and the scanner behind them. -/
def calls (s : Scanner) : Nat → List (Option (Except ScanError Token)) × Scanner
  | 0 => ([], s)
  | n + 1 => ((s.calls n).1 ++ [(s.calls n).2.next.1], (s.calls n).2.next.2)

/-- Behind the last result there is no other. -/
theorem next_of_next_eq_none {s : Scanner} (h : s.next.1 = none) : s.next.2.next.1 = none := by
  obtain ⟨pending, line⟩ := s
  simp only [next] at h ⊢
  induction pending generalizing line with
  | nil => rfl
  | cons first rest ih =>
    rw [nextFrom] at h ⊢
    cases hfirst : first.result? line with
    | none =>
      rw [hfirst] at h
      exact ih _ h
    | some r =>
      rw [hfirst] at h
      cases h

theorem next_eq_none_of_mem_calls {s : Scanner} {n : Nat} (h : none ∈ (s.calls n).1) :
    (s.calls n).2.next.1 = none := by
  induction n with
  | zero => cases h
  | succ n ih =>
    apply next_of_next_eq_none
    rcases List.mem_append.1 h with hbefore | hlast
    · exact ih hbefore
    · exact (List.mem_singleton.1 hlast).symm

end Scanner

namespace ByteScanner

/-- The calls of the byte scanner are those of the scanner, and there are at most as many results as
bytes that have been read. -/
theorem exists_calls (text : String) (n : Nat) :
    ∃ b, (∀ replacement,
        calls text replacement n = some (((Scanner.ofText text).calls n).1, b)) ∧
      Tracks text b ((Scanner.ofText text).calls n).2 ∧
      ((Scanner.ofText text).calls n).1.countP Option.isSome ≤ b.position := by
  induction n with
  | zero => exact ⟨start text, fun _ => rfl, tracks_start text, Nat.zero_le _⟩
  | succ n ih =>
    obtain ⟨b, hcalls, htracks, hcount⟩ := ih
    obtain ⟨b', hnext, htracks', hle, hlt⟩ := htracks.agrees
    refine ⟨b', ?_, htracks', ?_⟩
    · intro replacement
      rw [calls, hcalls replacement, Option.bind_some, hnext replacement]
      rfl
    · rw [Scanner.calls, List.countP_append]
      cases hlast : ((Scanner.ofText text).calls n).2.next.1 with
      | none => exact Nat.le_trans hcount hle
      | some r =>
        -- A call with a result moves on, so the results do not outnumber the bytes.
        have hstep := hlt (hlast ▸ Option.some_ne_none r)
        exact Nat.succ_le_of_lt (Nat.lt_of_le_of_lt hcount hstep)

/-- **Scanning byte by byte is safe and makes progress.**  However often a text is asked for its
next result, no slice is out of range or within a character, and no character is missing: the
outcome is the same whatever stands in for one.  It is the outcome of the scanner that goes over
segments.  Between two calls the state is lawful; there are at most as many results as bytes, since
each takes at least one; and behind the last result there is no other. -/
theorem calls_safe (text : String) (n : Nat) :
    ∃ b, (∀ replacement,
        calls text replacement n = some (((Scanner.ofText text).calls n).1, b)) ∧
      b.Lawful text ∧
      ((Scanner.ofText text).calls n).1.countP Option.isSome ≤ b.position ∧
      ∃ r b', (∀ replacement, b.next text replacement = some (r, b')) ∧
        (r ≠ none → b.position < b'.position) ∧
        (none ∈ ((Scanner.ofText text).calls n).1 → r = none) := by
  obtain ⟨b, hcalls, htracks, hcount⟩ := exists_calls text n
  obtain ⟨b', hnext, -, -, hlt⟩ := htracks.agrees
  exact ⟨b, hcalls, htracks.lawful, hcount, _, b', hnext, hlt, Scanner.next_eq_none_of_mem_calls⟩

end ByteScanner

end Scriptlet
