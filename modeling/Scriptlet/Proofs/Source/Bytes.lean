import Scriptlet.Source.Segment
import Mathlib.Data.List.Basic

/-!
# The bytes of a source text

A source text is a sequence of characters, and each of them is one byte or several.  An ASCII
character is one byte, which is its code; the bytes of all other characters are 128 and above.  So a
test that does not tell such characters apart may be made on bytes as well as on characters, and the
longest run of characters that pass it is the longest run of bytes.

## Main definitions

* `bytes` — the bytes of characters, one after another; `bytesFrom` — those of a text from a
  position.
* `byteAt` — the byte at a position, zero behind the end.
* `slice?` — the text between two positions that do not split a character.
* `Bytewise` — a function that does not tell characters apart unless they are ASCII.

## Main results

* `slice?_eq_some` — the positions around characters of a text are no splits.
* `Bytewise.takeWhile_bytes`, `Bytewise.dropWhile_bytes` — runs of bytes are runs of characters.
-/

namespace Scriptlet

/-- The bytes of characters. -/
def bytes (cs : List Char) : List UInt8 := cs.flatMap String.utf8EncodeChar

@[simp] theorem bytes_nil : bytes [] = [] := rfl

@[simp] theorem bytes_cons (c : Char) (cs : List Char) :
    bytes (c :: cs) = String.utf8EncodeChar c ++ bytes cs := rfl

@[simp] theorem bytes_append (cs ds : List Char) : bytes (cs ++ ds) = bytes cs ++ bytes ds :=
  List.flatMap_append

/-- The byte of a text at a position, zero if there is none. -/
def byteAt (text : String) (i : Nat) : UInt8 :=
  if h : i < text.toByteArray.size then text.toByteArray[i] else 0

/-- The part of a text between two positions, of which the second is not in front of the first and
neither is behind the end of the text or within a character. -/
def slice? (text : String) (first last : Nat) : Option String :=
  if h : first ≤ last ∧ String.Pos.Raw.IsValid text ⟨first⟩ ∧
      String.Pos.Raw.IsValid text ⟨last⟩ then
    some (String.extract ⟨⟨first⟩, h.2.1⟩ ⟨⟨last⟩, h.2.2⟩)
  else none

theorem byteAt_of_le {text : String} {i : Nat} (h : text.utf8ByteSize ≤ i) : byteAt text i = 0 :=
  dif_neg (Nat.not_lt.2 h)

/-! ### Positions in a text -/

/-- The bytes of a text from a position on. -/
def bytesFrom (text : String) (i : Nat) : List UInt8 := (bytes text.toList).drop i

section

variable {text : String}

theorem toByteArray_toList (text : String) : text.toByteArray.data.toList = bytes text.toList := by
  have h := String.toByteArray_ofList (l := text.toList)
  rw [String.ofList_toList] at h
  rw [h]
  exact List.toList_data_toByteArray

theorem length_bytes (text : String) : (bytes text.toList).length = text.utf8ByteSize := by
  rw [← toByteArray_toList, Array.length_toList]
  rfl

theorem bytesFrom_eq_nil {i : Nat} (h : bytesFrom text i = []) : text.utf8ByteSize ≤ i := by
  rw [← length_bytes]
  exact List.drop_eq_nil_iff.1 h

/-- The first byte from a position on is the one at that position. -/
theorem bytesFrom_eq_cons {i : Nat} {b : UInt8} {bs : List UInt8} (h : bytesFrom text i = b :: bs) :
    i < text.utf8ByteSize ∧ byteAt text i = b ∧ bytesFrom text (i + 1) = bs := by
  have hlt : i < (bytes text.toList).length := by
    by_contra hge
    rw [bytesFrom, List.drop_eq_nil_of_le (by omega)] at h
    cases h
  rw [bytesFrom, List.drop_eq_getElem_cons hlt] at h
  obtain ⟨hb, hbs⟩ := List.cons.inj h
  have hsize : i < text.toByteArray.size := by
    rw [length_bytes] at hlt
    exact hlt
  refine ⟨hsize, ?_, hbs⟩
  rw [byteAt, dif_pos hsize, ← hb, ByteArray.getElem_eq_getElem_data]
  simp only [← toByteArray_toList, Array.getElem_toList]

variable {front behind : List Char}

theorem bytesFrom_length (h : text.toList = front ++ behind) :
    bytesFrom text (bytes front).length = bytes behind := by
  rw [bytesFrom, h, bytes_append, List.drop_left]

theorem isValid_length (h : text.toList = front ++ behind) :
    String.Pos.Raw.IsValid text ⟨(bytes front).length⟩ := by
  rw [String.Pos.Raw.isValid_iff_exists_append]
  refine ⟨String.ofList front, String.ofList behind, ?_, ?_⟩
  · rw [← String.ofList_append, ← h, String.ofList_toList]
  · have hlen := length_bytes (String.ofList front)
    rw [String.toList_ofList] at hlen
    rw [hlen]
    rfl

theorem length_le_utf8ByteSize (h : text.toList = front ++ behind) :
    (bytes front).length ≤ text.utf8ByteSize := by
  rw [← length_bytes, h, bytes_append, List.length_append]
  omega

theorem slice?_eq_some {mid : List Char} (h : text.toList = front ++ mid ++ behind) :
    slice? text (bytes front).length (bytes (front ++ mid)).length = some (String.ofList mid) := by
  have hfirst := isValid_length (List.append_assoc front mid behind ▸ h)
  have hle : (bytes front).length ≤ (bytes (front ++ mid)).length := by simp
  rw [slice?, dif_pos ⟨hle, hfirst, isValid_length h⟩, Option.some_inj, ← String.toByteArray_inj,
    String.toByteArray_extract, String.toByteArray_ofList]
  apply ByteArray.ext
  rw [ByteArray.data_extract, ← Array.toList_inj, Array.toList_extract, toByteArray_toList, h]
  have hmid : mid.utf8Encode.data.toList = bytes mid := List.toList_data_toByteArray
  simp [List.extract_eq_take_drop, hmid]

end

/-! ### Bytes of a character -/

theorem toNat_ofUInt8 (b : UInt8) : (Char.ofUInt8 b).toNat = b.toNat := UInt8.toNat_toUInt32 b

/-- The only byte of an ASCII character is its code. -/
theorem utf8EncodeChar_of_lt {c : Char} (h : c.toNat < 128) :
    ∃ b, String.utf8EncodeChar c = [b] ∧ Char.ofUInt8 b = c := by
  refine ⟨UInt8.ofNat c.toNat, ?_, ?_⟩
  · exact if_pos (Nat.le_of_lt_succ h)
  · have hcode : (Char.ofUInt8 (UInt8.ofNat c.toNat)).toNat = c.toNat := by
      rw [toNat_ofUInt8, UInt8.toNat_ofNat']
      omega
    exact Char.toNat_inj.1 hcode

/-- The bytes of any other character are no codes of ASCII characters. -/
theorem le_of_mem_utf8EncodeChar {c : Char} (h : 128 ≤ c.toNat) {b : UInt8}
    (hb : b ∈ String.utf8EncodeChar c) : 128 ≤ (Char.ofUInt8 b).toNat := by
  have hv : 128 ≤ c.val.toNat := h
  rw [toNat_ofUInt8]
  unfold String.utf8EncodeChar at hb
  dsimp only at hb
  rw [if_neg (by omega)] at hb
  split_ifs at hb <;> simp only [List.mem_cons, List.not_mem_nil, or_false] at hb <;>
    rcases hb with rfl | rfl | rfl | rfl <;> rw [UInt8.toNat_ofNat'] <;> omega

theorem length_utf8EncodeChar_pos (c : Char) : 0 < (String.utf8EncodeChar c).length := by
  rw [String.length_utf8EncodeChar]
  exact c.utf8Size_pos

theorem length_bytes_pos {cs : List Char} (h : cs ≠ []) : 0 < (bytes cs).length := by
  obtain ⟨c, cs, rfl⟩ := List.exists_cons_of_ne_nil h
  rw [bytes_cons, List.length_append]
  exact Nat.add_pos_left (length_utf8EncodeChar_pos c) _

/-! ### Tests on bytes -/

/-- A function on characters that has one value at all that are not ASCII. -/
def Bytewise {α : Type} (p : Char → α) : Prop := ∀ c : Char, 128 ≤ c.toNat → p c = p '\x80'

theorem bytewise_of_eq {α : Type} {p : Char → α} (a : α) (h : ∀ c : Char, 128 ≤ c.toNat → p c = a) :
    Bytewise p :=
  fun c hc => (h c hc).trans (h '\x80' (by decide)).symm

theorem bytewise_beq {a : Char} (h : a.toNat < 128) : Bytewise (· == a) := by
  refine bytewise_of_eq false ?_
  intro c hc
  rw [beq_eq_false_iff_ne]
  rintro rfl
  omega

theorem bytewise_isDigit : Bytewise Char.isDigit := by
  refine bytewise_of_eq false ?_
  intro c hc
  refine Bool.eq_false_iff.2 fun hdigit => ?_
  have hle : c.toNat ≤ 57 := (Char.isDigit_iff_toNat.1 hdigit).2
  omega

theorem bytewise_isAlpha : Bytewise Char.isAlpha := by
  refine bytewise_of_eq false ?_
  intro c hc
  refine Bool.eq_false_iff.2 fun halpha => ?_
  rcases Bool.or_eq_true_iff.1 halpha with hupper | hlower
  · have hle : c.toNat ≤ 90 := (of_decide_eq_true hupper).2
    omega
  · have hle : c.toNat ≤ 122 := of_decide_eq_true (Bool.and_eq_true_iff.1 hlower).2
    omega

theorem Bytewise.or {p q : Char → Bool} (hp : Bytewise p) (hq : Bytewise q) :
    Bytewise fun c => p c || q c := by
  intro c hc
  simp only [hp c hc, hq c hc]

theorem bytewise_isBlank : Bytewise isBlank := by
  refine ((((bytewise_beq ?_).or (bytewise_beq ?_)).or (bytewise_beq ?_)).or (bytewise_beq ?_)).or
    (bytewise_beq ?_)
  all_goals decide

theorem bytewise_isWordStart : Bytewise isWordStart :=
  bytewise_isAlpha.or (bytewise_beq (by decide))

theorem bytewise_isWordPart : Bytewise isWordPart :=
  (bytewise_isAlpha.or bytewise_isDigit).or (bytewise_beq (by decide))

theorem bytewise_ne {a : Char} (h : a.toNat < 128) : Bytewise fun c => decide (c ≠ a) := by
  refine bytewise_of_eq true ?_
  intro c hc
  rw [decide_eq_true_eq]
  rintro rfl
  omega

theorem bytewise_ofSymbol? : Bytewise Kind.ofSymbol? := by
  refine bytewise_of_eq none ?_
  intro c hc
  unfold Kind.ofSymbol?
  split
  case h_16 => rfl
  all_goals exact absurd hc (by decide)

section

variable {α : Type} {p : Char → α}

/-- A byte of a character passes a test if the character does. -/
theorem Bytewise.ofUInt8 (hp : Bytewise p) {c : Char} {b : UInt8}
    (hb : b ∈ String.utf8EncodeChar c) : p (Char.ofUInt8 b) = p c := by
  rcases Nat.lt_or_ge c.toNat 128 with hc | hc
  · obtain ⟨b', hbytes, hb'⟩ := utf8EncodeChar_of_lt hc
    rw [hbytes, List.mem_singleton] at hb
    rw [hb, hb']
  · rw [hp _ (le_of_mem_utf8EncodeChar hc hb), hp c hc]

theorem Bytewise.lt_of_ne (hp : Bytewise p) {c : Char} (h : p c ≠ p '\x80') : c.toNat < 128 := by
  by_contra hc
  exact h (hp c (Nat.le_of_not_lt hc))

end

/-- The longest run of bytes that pass a test is the longest run of characters that do. -/
theorem Bytewise.takeWhile_bytes {p : Char → Bool} (hp : Bytewise p) (cs : List Char) :
    (bytes cs).takeWhile (fun b => p (Char.ofUInt8 b)) = bytes (cs.takeWhile p) := by
  induction cs with
  | nil => rfl
  | cons c cs ih =>
    rw [bytes_cons]
    by_cases hc : p c = true
    · rw [List.takeWhile_cons_of_pos hc, bytes_cons, List.takeWhile_append_of_pos, ih]
      intro b hb
      rw [hp.ofUInt8 hb, hc]
    · rw [List.takeWhile_cons_of_neg hc, bytes_nil]
      -- The first byte of a character that does not pass the test does not pass it either.
      cases hbytes : String.utf8EncodeChar c with
      | nil => exact absurd hbytes (List.ne_nil_of_length_pos (length_utf8EncodeChar_pos c))
      | cons b bs =>
        have hb : p (Char.ofUInt8 b) = p c := hp.ofUInt8 (hbytes ▸ List.mem_cons_self)
        rw [List.cons_append, List.takeWhile_cons_of_neg]
        rw [hb]
        exact hc

/-- There are as many line feeds among the bytes as among the characters. -/
theorem countP_bytes (cs : List Char) :
    (bytes cs).countP (fun b => Char.ofUInt8 b == '\n') = cs.count '\n' := by
  have hfeed : Bytewise (· == '\n') := bytewise_beq (by decide)
  induction cs with
  | nil => rfl
  | cons c cs ih =>
    rw [bytes_cons, List.countP_append, ih, List.count_cons, Nat.add_comm]
    congr 1
    cases hc : c == '\n' with
    | false =>
      rw [List.countP_eq_zero.2]
      · rfl
      · intro b hb
        rw [hfeed.ofUInt8 hb, hc]
        exact Bool.false_ne_true
    | true =>
      rw [beq_iff_eq] at hc
      rw [hc]
      rfl

/-- The byte behind the first characters of a text is the first one of the character there. -/
theorem byteAt_length {text : String} {front behind : List Char} {c : Char}
    (h : text.toList = front ++ c :: behind) : (bytes front).length < text.utf8ByteSize ∧
      byteAt text (bytes front).length ∈ String.utf8EncodeChar c := by
  have hbytes := bytesFrom_length h
  rw [bytes_cons] at hbytes
  cases hc : String.utf8EncodeChar c with
  | nil => exact absurd hc (List.ne_nil_of_length_pos (length_utf8EncodeChar_pos c))
  | cons b bs =>
    rw [hc, List.cons_append] at hbytes
    obtain ⟨hlt, hb, -⟩ := bytesFrom_eq_cons hbytes
    exact ⟨hlt, hb ▸ List.mem_cons_self⟩

end Scriptlet
