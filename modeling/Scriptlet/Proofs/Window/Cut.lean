import Scriptlet.Proofs.Window.Balance

/-!
# Pieces of windows

The pieces into which statements cut a window, said without the functions that cut it: a pair of
delimiters with its balanced inside, and a run of tokens up to the first semicolon.

## Main definitions

* `Window.StartsWith` — the first token of a window has a kind.
* `Window.Encloses` — a window is a pair of delimiters around an inside.
* `Window.Terminated` — a window ends at its only semicolon.

## Main results

* `Window.delimited?_eq_some_iff_encloses`, `Window.untilSemicolon?_eq_some_iff` — the cuts find
  exactly these pieces.
* `Window.Balanced.unique`, `Window.Terminated.unique` — a window begins with one such piece only.
-/

namespace Scriptlet.Window

/-! ### First tokens -/

/-- The window begins with a token of the given kind. -/
def StartsWith (kind : Kind) (ts : Window) : Prop := ∃ t us, ts = t :: us ∧ t.kind = kind

@[simp] theorem not_startsWith_nil (kind : Kind) : ¬ StartsWith kind [] := by
  intro h
  obtain ⟨t, us, h, -⟩ := h
  cases h

@[simp] theorem startsWith_cons_iff {kind : Kind} {t : Token} {ts : Window} :
    StartsWith kind (t :: ts) ↔ t.kind = kind := by
  constructor
  · intro h
    obtain ⟨s, us, h, hs⟩ := h
    cases h
    exact hs
  · intro h
    exact ⟨t, ts, rfl, h⟩

theorem startsWith_iff_head? {kind : Kind} {ts : Window} :
    StartsWith kind ts ↔ (ts.head?.any fun t => t.kind = kind) = true := by
  cases ts with
  | nil => simp
  | cons t ts => simp

theorem StartsWith.append {kind : Kind} {ts : Window} (h : StartsWith kind ts) (us : Window) :
    StartsWith kind (ts ++ us) := by
  obtain ⟨t, vs, rfl, ht⟩ := h
  exact ⟨t, vs ++ us, rfl, ht⟩

/-! ### Delimiters -/

/-- The window is a pair of matching delimiters with the given tokens between them. -/
def Encloses (opening closing : Kind) (inner ts : Window) : Prop :=
  Balanced opening closing inner ∧
    ∃ s t, s.kind = opening ∧ t.kind = closing ∧ ts = s :: (inner ++ [t])

/-- **The cut at the matching delimiter** takes a pair of delimiters off the window. -/
theorem delimited?_eq_some_iff_encloses {opening closing : Kind} (hne : opening ≠ closing)
    {ts inner rest : Window} :
    delimited? opening closing ts = some (inner, rest) ↔
      ∃ front, Encloses opening closing inner front ∧ ts = front ++ rest := by
  rw [delimited?_eq_some_iff hne]
  constructor
  · intro h
    obtain ⟨hb, s, t, hs, ht, rfl⟩ := h
    exact ⟨s :: (inner ++ [t]), ⟨hb, s, t, hs, ht, rfl⟩, by simp⟩
  · intro h
    obtain ⟨front, ⟨hb, s, t, hs, ht, rfl⟩, rfl⟩ := h
    exact ⟨hb, s, t, hs, ht, by simp⟩

/-- A delimiter in front has one match only. -/
theorem Balanced.unique {opening closing : Kind} (hne : opening ≠ closing) {s t s' t' : Token}
    {inner inner' rest rest' : Window} (h : Balanced opening closing inner)
    (hs : s.kind = opening) (ht : t.kind = closing) (h' : Balanced opening closing inner')
    (ht' : t'.kind = closing) (heq : s :: (inner ++ t :: rest) = s' :: (inner' ++ t' :: rest')) :
    s = s' ∧ inner = inner' ∧ t = t' ∧ rest = rest' := by
  obtain ⟨rfl, heq⟩ := List.cons.inj heq
  have hcut : delimited? opening closing (s :: (inner ++ t :: rest)) = some (inner, rest) :=
    (delimited?_eq_some_iff hne).2 ⟨h, s, t, hs, ht, rfl⟩
  have hcut' : delimited? opening closing (s :: (inner' ++ t' :: rest')) = some (inner', rest') :=
    (delimited?_eq_some_iff hne).2 ⟨h', s, t', hs, ht', rfl⟩
  rw [heq, hcut', Option.some.injEq, Prod.mk.injEq] at hcut
  obtain ⟨rfl, rfl⟩ := hcut
  have ht : t = t' := (List.cons.inj (List.append_cancel_left (List.cons.inj heq).2)).1
  exact ⟨rfl, rfl, ht, rfl⟩

theorem Encloses.startsWith {opening closing : Kind} {inner ts : Window}
    (h : Encloses opening closing inner ts) : StartsWith opening ts := by
  obtain ⟨-, s, t, hs, -, rfl⟩ := h
  exact ⟨s, inner ++ [t], rfl, hs⟩

theorem Encloses.length {opening closing : Kind} {inner ts : Window}
    (h : Encloses opening closing inner ts) : ts.length = inner.length + 2 := by
  obtain ⟨-, s, t, -, -, rfl⟩ := h
  simp

/-! ### Semicolons -/

theorem untilSemicolon?_eq_some_iff {ts front rest : Window} :
    untilSemicolon? ts = some (front, rest) ↔
      (∀ t ∈ front, t.kind ≠ .semicolon) ∧ ∃ t, t.kind = .semicolon ∧ ts = front ++ t :: rest := by
  induction ts generalizing front with
  | nil => simp [untilSemicolon?]
  | cons s ts ih =>
    rw [untilSemicolon?]
    by_cases hs : s.kind = .semicolon
    · rw [if_pos hs]
      constructor
      · intro h
        simp only [Option.some.injEq, Prod.mk.injEq] at h
        obtain ⟨rfl, rfl⟩ := h
        exact ⟨by simp, s, hs, rfl⟩
      · intro h
        obtain ⟨hfront, t, -, heq⟩ := h
        -- A front that goes on behind the first semicolon would hold it.
        cases front with
        | nil => rw [(List.cons.inj heq).2]
        | cons u front =>
          exact absurd ((List.cons.inj heq).1 ▸ hs) (hfront u List.mem_cons_self)
    · rw [if_neg hs]
      constructor
      · intro h
        obtain ⟨⟨front', rest'⟩, h', heq⟩ := Option.map_eq_some_iff.1 h
        simp only [Prod.mk.injEq] at heq
        obtain ⟨rfl, rfl⟩ := heq
        obtain ⟨hfront, t, ht, rfl⟩ := ih.1 h'
        exact ⟨List.forall_mem_cons.2 ⟨hs, hfront⟩, t, ht, rfl⟩
      · intro h
        obtain ⟨hfront, t, ht, heq⟩ := h
        cases front with
        | nil => exact absurd ((List.cons.inj heq).1 ▸ ht) hs
        | cons u front =>
          simp only [List.cons_append, List.cons.injEq] at heq
          obtain ⟨rfl, rfl⟩ := heq
          rw [ih.2 ⟨(List.forall_mem_cons.1 hfront).2, t, ht, rfl⟩]
          rfl

/-- The window ends at its first semicolon. -/
def Terminated (ts : Window) : Prop :=
  ∃ front t, (∀ s ∈ front, s.kind ≠ .semicolon) ∧ t.kind = .semicolon ∧ ts = front ++ [t]

/-- A window has one front that ends at its first semicolon. -/
theorem Terminated.unique {ts ts' rest rest' : Window} (h : Terminated ts) (h' : Terminated ts')
    (heq : ts ++ rest = ts' ++ rest') : ts = ts' ∧ rest = rest' := by
  obtain ⟨front, t, hfront, ht, rfl⟩ := h
  obtain ⟨front', t', hfront', ht', rfl⟩ := h'
  rw [List.append_assoc, List.append_assoc, List.singleton_append, List.singleton_append] at heq
  have hcut : untilSemicolon? (front ++ t :: rest) = some (front, rest) :=
    untilSemicolon?_eq_some_iff.2 ⟨hfront, t, ht, rfl⟩
  have hcut' : untilSemicolon? (front' ++ t' :: rest') = some (front', rest') :=
    untilSemicolon?_eq_some_iff.2 ⟨hfront', t', ht', rfl⟩
  rw [heq, hcut', Option.some.injEq, Prod.mk.injEq] at hcut
  obtain ⟨rfl, rfl⟩ := hcut
  rw [(List.cons.inj (List.append_cancel_left heq)).1]
  exact ⟨rfl, rfl⟩

theorem Terminated.ne_nil {ts : Window} (h : Terminated ts) : ts ≠ [] := by
  obtain ⟨front, t, -, -, rfl⟩ := h
  simp

end Scriptlet.Window
