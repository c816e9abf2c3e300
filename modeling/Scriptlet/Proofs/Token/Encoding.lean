import Mathlib.Data.List.TakeWhile
import Scriptlet.Command
import Scriptlet.Proofs.Machine.Relabel
import Scriptlet.Token.Encoding

/-!
# Encoded tokens

An encoded token is read back with its kind and with its lexeme, whatever characters the lexeme is
made of: the name of a kind has no spaces, so the first space of the encoding ends the name.  What
is not read back is the line; but no run looks at the lines of its tokens, nor does the value of an
expression depend on them.

## Main definitions

* `Kind.names` — the names of all kinds.
* `Kind.ofTables?` — the kind with a name, by two tables, one of them that of the reserved words.
* `Token.firstWord` — a text up to its first space.
* `Token.unlined` — a token with the line zero.

## Main results

* `Kind.ofTables?_eq_ofName?` — the two tables are those of the names.
* `Token.decode_eq_splitOn` — decoding by splitting a text into words and joining all but the first.
* `Token.decode_encode`, `Token.decode_eq_ok_iff` — **what is decoded, and to what.**
* `Machine.interpret_unlined`, `Window.valueAlone_unlined` — lines do not matter.
* `Token.decode_faithful` — **the encoding keeps all that a token means.**
-/

namespace Scriptlet

/-! ### The names of kinds -/

namespace Kind

/-- The names of all kinds. -/
def names : List String := all.map name

theorem mem_names_iff {word : String} : word ∈ names ↔ ∃ k : Kind, k.name = word := by
  rw [names, List.mem_map]
  exact exists_congr fun k => and_iff_right (mem_all k)

theorem isUpper_of_mem_name (k : Kind) :
    ∀ c ∈ k.name.toList, c.isUpper = true ∨ c = '_' := by
  have hall : k.name.toList.all (fun c => c.isUpper || c == '_') = true := by
    cases k <;> decide +kernel
  intro c hc
  simpa using List.all_eq_true.1 hall c hc

theorem name_ne_empty (k : Kind) : k.name ≠ "" := by
  cases k <;> decide +kernel

theorem ne_space_of_mem_name {k : Kind} {c : Char} (hc : c ∈ k.name.toList) : c ≠ ' ' := by
  rintro rfl
  rcases k.isUpper_of_mem_name ' ' hc with h | h
  · exact absurd h (by decide)
  · exact absurd h (by decide)

/-- The kind with a name.  The name of a reserved word is its spelling in capitals, so these kinds
need no table of their own: what is found under the spelling in small letters must only have the
right name. -/
def ofTables? (word : String) : Option Kind :=
  (all.find? fun k => k.word?.isNone && k.name == word).or
    ((ofWord? word.toLower).filter fun k => k.name == word)

/-- **The two tables are those of the names.** -/
theorem ofTables?_eq_ofName? (word : String) : ofTables? word = ofName? word := by
  by_cases h : ∃ k : Kind, k.name = word
  · obtain ⟨k, rfl⟩ := h
    cases k <;> decide +kernel
  · rw [not_exists] at h
    have hname : ofName? word = none := List.find?_eq_none.2 fun k _ => by simp [h k]
    have hfirst : (all.find? fun k => k.word?.isNone && k.name == word) = none :=
      List.find?_eq_none.2 fun k _ => by simp [h k]
    rw [ofTables?, hname, hfirst, Option.none_or, Option.filter_eq_none_iff]
    intro k _
    simp [h k]

theorem decode_eq_ok_iff {word : String} {k : Kind} : decode word = .ok k ↔ k.name = word := by
  unfold decode
  constructor
  · intro h
    split at h
    · rename_i k' hname
      cases h
      exact name_of_ofName? hname
    · cases h
  · rintro rfl
    rw [ofName?_name]

theorem decode_eq_error_iff {word : String} {e : EncodingError} :
    decode word = .error e ↔ e = .unknownKind word ∧ word ∉ names := by
  rw [mem_names_iff]
  unfold decode
  cases hname : ofName? word with
  | none =>
    have hnone (k : Kind) : k.name ≠ word := by
      rintro rfl
      rw [ofName?_name] at hname
      cases hname
    simp [hnone, eq_comm]
  | some k =>
    have hword : ∃ k : Kind, k.name = word := ⟨k, name_of_ofName? hname⟩
    simp [hword]

end Kind

/-! ### Words -/

namespace Token

/-- The part of a text in front of its first space; all of it if there is none. -/
def firstWord (text : String) : String := String.ofList (text.toList.takeWhile (· ≠ ' '))

/-- Behind its first word a text ends, or there is a space. -/
theorem dropWhile_ne_space_cases (text : String) :
    (text.toList.dropWhile (· ≠ ' ') = [] ∧ text.toList = (firstWord text).toList) ∨
      ∃ rest, text.toList.dropWhile (· ≠ ' ') = ' ' :: rest ∧
        text.toList = (firstWord text).toList ++ ' ' :: rest := by
  have happend : (firstWord text).toList ++ text.toList.dropWhile (· ≠ ' ') = text.toList := by
    rw [firstWord, String.toList_ofList]
    exact List.takeWhile_append_dropWhile
  have hhead := List.head?_dropWhile_not (· ≠ ' ') text.toList
  cases hdrop : text.toList.dropWhile (· ≠ ' ') with
  | nil =>
    rw [hdrop, List.append_nil] at happend
    exact .inl ⟨rfl, happend.symm⟩
  | cons c rest =>
    rw [hdrop] at happend hhead
    obtain rfl : c = ' ' := by simpa using hhead
    exact .inr ⟨rest, rfl, happend.symm⟩

theorem space_not_mem_firstWord (text : String) : ' ' ∉ (firstWord text).toList := by
  intro h
  rw [firstWord, String.toList_ofList] at h
  have hspace := List.mem_takeWhile_imp h
  simp at hspace

theorem firstWord_eq_empty_iff {text : String} :
    firstWord text = "" ↔ text = "" ∨ ∃ rest, text = " " ++ rest := by
  constructor
  · intro h
    rcases dropWhile_ne_space_cases text with ⟨-, htext⟩ | ⟨rest, -, htext⟩
    · exact .inl ((String.toList_inj.1 htext).trans h)
    · refine .inr ⟨String.ofList rest, String.toList_inj.1 ?_⟩
      rw [htext, h]
      simp
  · intro h
    rcases h with rfl | ⟨rest, rfl⟩
    · rfl
    · simp [firstWord]

theorem firstWord_of_not_mem {text : String} (h : ' ' ∉ text.toList) : firstWord text = text := by
  have hall : ∀ c ∈ text.toList, decide (c ≠ ' ') = true :=
    fun c hc => decide_eq_true fun heq => h (heq ▸ hc)
  rw [firstWord, List.takeWhile_eq_self_iff.2 hall, String.ofList_toList]

/-- Decoding looks for the kind in the first word only. -/
theorem decode_eq (text : String) :
    decode text =
      if firstWord text = "" then .error .empty
      else (Kind.decode (firstWord text)).map fun kind =>
        ⟨kind, String.ofList ((text.toList.dropWhile (· ≠ ' ')).drop 1), 0⟩ := by
  have hempty : firstWord text = "" ↔ text.toList.takeWhile (· ≠ ' ') = [] := by
    rw [firstWord, ← String.toList_inj, String.toList_ofList, String.toList_empty]
  simp only [hempty]
  rfl

/-- **Decoding by splitting a text at its spaces**: the first word is the name of the kind, and the
other words, joined by spaces again, are the lexeme. -/
theorem decode_eq_splitOn (text : String) :
    decode text =
      match text.toList.splitOn ' ' with
      | [] => .error .empty
      | word :: words =>
        if word = [] then .error .empty
        else (Kind.decode (String.ofList word)).map fun kind =>
          ⟨kind, String.ofList ([' '].intercalate words), 0⟩ := by
  have hword : ' ' ∉ (firstWord text).toList := space_not_mem_firstWord text
  have hempty : firstWord text = "" ↔ (firstWord text).toList = [] := by
    rw [← String.toList_inj, String.toList_empty]
  simp only [decode_eq, hempty]
  rcases dropWhile_ne_space_cases text with ⟨hdrop, htext⟩ | ⟨rest, hdrop, htext⟩
  · have hsplit : text.toList.splitOn ' ' = [(firstWord text).toList] := by
      rw [htext, List.splitOn_eq_singleton hword]
    rw [hsplit, hdrop]
    simp
  · have hsplit : text.toList.splitOn ' ' = (firstWord text).toList :: rest.splitOn ' ' := by
      rw [htext, List.splitOn_append_cons_self_of_not_mem hword]
    rw [hsplit, hdrop]
    simp [List.intercalate_splitOn]

/-! ### What is decoded -/

/-- **An encoded token is read back**, whatever its lexeme is; only the line is lost. -/
theorem decode_encode (kind : Kind) (lexeme : String) :
    decode (kind.name ++ " " ++ lexeme) = .ok ⟨kind, lexeme, 0⟩ := by
  have hlist : (kind.name ++ " " ++ lexeme).toList = kind.name.toList ++ ' ' :: lexeme.toList := by
    simp
  have hname : ∀ c ∈ kind.name.toList, decide (c ≠ ' ') = true :=
    fun c hc => decide_eq_true (Kind.ne_space_of_mem_name hc)
  have hfirst : firstWord (kind.name ++ " " ++ lexeme) = kind.name := by
    rw [firstWord, hlist, List.takeWhile_append_of_pos hname]
    simp
  have hrest : (kind.name ++ " " ++ lexeme).toList.dropWhile (· ≠ ' ') = ' ' :: lexeme.toList := by
    rw [hlist, List.dropWhile_append_of_pos hname]
    simp
  rw [decode_eq, hfirst, hrest, if_neg kind.name_ne_empty, Kind.decode_eq_ok_iff.2 rfl]
  simp [Except.map]

/-- A bare name is read as a token without any text. -/
theorem decode_name (kind : Kind) : decode kind.name = .ok ⟨kind, "", 0⟩ := by
  have hname : ' ' ∉ kind.name.toList := fun h => Kind.ne_space_of_mem_name h rfl
  have hdrop : kind.name.toList.dropWhile (· ≠ ' ') = [] :=
    List.dropWhile_eq_nil_iff.2 fun c hc => decide_eq_true (Kind.ne_space_of_mem_name hc)
  rw [decode_eq, firstWord_of_not_mem hname, hdrop, if_neg kind.name_ne_empty,
    Kind.decode_eq_ok_iff.2 rfl]
  rfl

/-- **A text is read as a token** if it is the encoding of that token, or the bare name of its kind
where the lexeme is empty. -/
theorem decode_eq_ok_iff {text : String} {t : Token} :
    decode text = .ok t ↔
      t.line = 0 ∧ (text = t.encode ∨ (text = t.kind.name ∧ t.lexeme = "")) := by
  constructor
  · intro h
    rw [decode_eq] at h
    split at h
    · cases h
    · obtain ⟨kind, hkind, rfl⟩ := map_eq_ok_iff.1 h
      have hname : kind.name = firstWord text := Kind.decode_eq_ok_iff.1 hkind
      refine ⟨rfl, ?_⟩
      rcases dropWhile_ne_space_cases text with ⟨hdrop, htext⟩ | ⟨rest, hdrop, htext⟩
      · -- Without a space behind the name the lexeme is empty.
        right
        rw [hdrop]
        exact ⟨(String.toList_inj.1 htext).trans hname.symm, rfl⟩
      · left
        rw [hdrop, encode]
        refine String.toList_inj.1 ?_
        rw [htext, ← hname]
        simp
  · intro h
    obtain ⟨hline, h⟩ := h
    obtain ⟨kind, lexeme, line⟩ := t
    dsimp only at hline h
    subst hline
    rcases h with rfl | ⟨rfl, rfl⟩
    · exact decode_encode kind lexeme
    · exact decode_name kind

/-- A text is read as some token if its first word is a name. -/
theorem exists_decode_eq_ok_iff {text : String} :
    (∃ t, decode text = .ok t) ↔ firstWord text ∈ Kind.names := by
  rw [decode_eq, Kind.mem_names_iff]
  split
  · rename_i hword
    rw [hword]
    constructor
    · intro h
      obtain ⟨t, h⟩ := h
      cases h
    · intro h
      obtain ⟨kind, hkind⟩ := h
      exact absurd hkind kind.name_ne_empty
  · constructor
    · intro h
      obtain ⟨t, h⟩ := h
      obtain ⟨kind, hkind, -⟩ := map_eq_ok_iff.1 h
      exact ⟨kind, Kind.decode_eq_ok_iff.1 hkind⟩
    · intro h
      obtain ⟨kind, hkind⟩ := h
      exact ⟨_, map_eq_ok_iff.2 ⟨kind, Kind.decode_eq_ok_iff.2 hkind, rfl⟩⟩

/-- Decoding fails where the first word is empty or no name, and says which. -/
theorem decode_eq_error_iff {text : String} {e : EncodingError} :
    decode text = .error e ↔
      (e = .empty ∧ firstWord text = "") ∨
        (e = .unknownKind (firstWord text) ∧ firstWord text ≠ "" ∧
          firstWord text ∉ Kind.names) := by
  rw [decode_eq]
  by_cases hword : firstWord text = ""
  · rw [if_pos hword]
    simp [hword, eq_comm]
  · rw [if_neg hword, map_eq_error_iff, Kind.decode_eq_error_iff]
    simp [hword]

/-! ### Lines -/

/-- The token with the line zero. -/
def unlined (t : Token) : Token := { t with line := 0 }

/-- Taking the line away changes no kind and no text. -/
theorem relabels_unlined : Relabels unlined id where
  kind _ := rfl
  name _ _ := rfl
  other _ _ := rfl

/-- Encoding tokens and decoding them again takes their lines away, and nothing else. -/
theorem mapM_decode_encode (ts : Window) :
    ts.mapM (fun t => decode t.encode) = .ok (ts.map unlined) := by
  have heach : (fun t : Token => decode t.encode) = fun t => pure t.unlined :=
    funext fun t => decode_encode t.kind t.lexeme
  rw [heach, List.mapM_pure]
  rfl

end Token

theorem Faithful.id (names : List String) : Faithful id names where
  injective _ _ _ _ h := h
  nil_iff _ _ := Iff.rfl

/-- **No run looks at the lines of its tokens.** -/
theorem Machine.interpret_unlined (m : Machine) (limit : Nat) (ts : Window) :
    m.interpret limit (ts.map Token.unlined) = m.interpret limit ts := by
  have hts : ts.Renamable id (ts.names ++ m.store.names) :=
    ⟨List.subset_append_left _ _, .inl rfl⟩
  have hmap := interpret_map Token.relabels_unlined (Faithful.id _) limit hts
    (List.subset_append_right ts.names m.store.names)
  rwa [rename_id, Outcome.rename_id] at hmap

/-- The value of an expression does not depend on the lines of its tokens. -/
theorem Window.valueAlone_unlined (limit : Nat) (ts : Window) :
    valueAlone limit (ts.map Token.unlined) = valueAlone limit ts := by
  have hstore : Store.empty.names ⊆ ts.names := List.nil_subset ts.names
  have hts : ts.Renamable id ts.names := ⟨List.Subset.refl _, .inl rfl⟩
  have heval := eval_map Token.relabels_unlined (Faithful.id _) hstore hts limit
  rwa [Store.rename_id] at heval

namespace Token

/-- **The encoding keeps all that a token means.**  The name of a kind, a space and any lexeme are
decoded to that kind and that lexeme.  A text is decoded at all if its first word is one of the 38
names, which are all different and in capital letters; then it is the encoding of the decoded token,
or the bare name of its kind.  It is refused as empty if it is empty or begins with a space, and
else because of its first word.  And tokens that have been encoded and decoded again, those of a
source text among them, run as before in every state, and have the same value as an expression. -/
theorem decode_faithful :
    (∀ (kind : Kind) (lexeme : String),
        decode (kind.name ++ " " ++ lexeme) = .ok ⟨kind, lexeme, 0⟩) ∧
      (Kind.names.length = 38 ∧ Kind.names.Nodup ∧
        ∀ word ∈ Kind.names, ∀ c ∈ word.toList, c.isUpper = true ∨ c = '_') ∧
      (∀ text : String,
        ((∃ t, decode text = .ok t) ↔ firstWord text ∈ Kind.names) ∧
        (∀ t, decode text = .ok t ↔
          t.line = 0 ∧ (text = t.encode ∨ (text = t.kind.name ∧ t.lexeme = ""))) ∧
        (decode text = .error .empty ↔ text = "" ∨ ∃ rest, text = " " ++ rest) ∧
        ∀ word, decode text = .error (.unknownKind word) ↔
          word = firstWord text ∧ word ∉ Kind.names ∧
            ¬ (text = "" ∨ ∃ rest, text = " " ++ rest)) ∧
      ∀ ts : Window, ∃ decoded : Window,
        ts.mapM (fun t => decode t.encode) = .ok decoded ∧
          (∀ (m : Machine) (limit : Nat), m.interpret limit decoded = m.interpret limit ts) ∧
          ∀ limit : Nat, decoded.valueAlone limit = ts.valueAlone limit := by
  refine ⟨decode_encode, ⟨rfl, by decide +kernel, ?_⟩, fun text => ⟨?_, ?_, ?_, ?_⟩, fun ts => ?_⟩
  · intro word hword
    obtain ⟨kind, rfl⟩ := Kind.mem_names_iff.1 hword
    exact kind.isUpper_of_mem_name
  · exact exists_decode_eq_ok_iff
  · exact fun t => decode_eq_ok_iff
  · rw [decode_eq_error_iff, firstWord_eq_empty_iff]
    simp
  · intro word
    rw [decode_eq_error_iff, ← firstWord_eq_empty_iff]
    constructor
    · intro h
      -- The empty text is refused before its first word is looked up.
      rcases h with ⟨h, -⟩ | ⟨h, hne, hname⟩
      · cases h
      · cases h
        exact ⟨rfl, hname, hne⟩
    · intro h
      obtain ⟨rfl, hname, hne⟩ := h
      exact .inr ⟨rfl, hne, hname⟩
  · exact ⟨ts.map unlined, mapM_decode_encode ts, fun m limit => m.interpret_unlined limit ts,
      fun limit => Window.valueAlone_unlined limit ts⟩

end Token

end Scriptlet
