import Scriptlet.Window

/-!
# Balanced windows

A window is balanced over a pair of delimiters if no front of it closes more of them than it opens,
and all that it opens is closed in the end; tokens of other kinds do not count.  Cutting a window
at the match of its first delimiter finds the one balanced inside that a closing delimiter follows.

## Main definitions

* `Window.tally` — the number of tokens of a kind.
* `Window.Settles` — a window closes so many delimiters more than it opens, and never others.
* `Window.Balanced` — the balanced windows.

## Main results

* `Window.toClosing?_eq_some_iff`, `Window.delimited?_eq_some_iff` — what the cut at the matching
  delimiter finds.
* `Window.Balanced.append`, `Window.Balanced.enclose` — building balanced windows.
-/

namespace Scriptlet.Window

variable {opening closing : Kind}

/-- The number of tokens of a kind. -/
def tally (kind : Kind) (ts : Window) : Nat := ts.countP fun t => t.kind = kind

@[simp] theorem tally_nil (kind : Kind) : tally kind [] = 0 := rfl

theorem tally_cons (kind : Kind) (t : Token) (ts : Window) :
    tally kind (t :: ts) = tally kind ts + if t.kind = kind then 1 else 0 := by
  simp [tally, List.countP_cons]

@[simp] theorem tally_append (kind : Kind) (front behind : Window) :
    tally kind (front ++ behind) = tally kind front + tally kind behind :=
  List.countP_append

theorem tally_eq_zero_iff {kind : Kind} {ts : Window} :
    tally kind ts = 0 ↔ ∀ t ∈ ts, t.kind ≠ kind := by
  simp [tally]

theorem tally_le_of_prefix {kind : Kind} {front ts : Window} (h : front <+: ts) :
    tally kind front ≤ tally kind ts :=
  h.countP_le

/-! ### Settling pending delimiters -/

/-- With `pending` delimiters open before it, a window never closes more than are open, and leaves
none open in the end. -/
structure Settles (opening closing : Kind) (pending : Nat) (ts : Window) : Prop where
  /-- No front closes more than are open. -/
  prefixes : ∀ front, front <+: ts → tally closing front ≤ pending + tally opening front
  /-- In the end all are closed. -/
  total : tally closing ts = pending + tally opening ts

theorem settles_nil_iff {pending : Nat} : Settles opening closing pending [] ↔ pending = 0 := by
  constructor
  · intro h
    have htotal := h.total
    simp only [tally_nil, Nat.add_zero] at htotal
    exact htotal.symm
  · rintro rfl
    refine ⟨fun front hfront => ?_, rfl⟩
    rw [List.prefix_nil.1 hfront]
    exact Nat.le_refl 0

/-- What the first token does to the number of open delimiters decides what the rest has to settle,
unless that token closes one too many. -/
theorem settles_cons_iff {pending : Nat} (after : Nat) {t : Token} {ts : Window}
    (hafter : pending + (if t.kind = opening then 1 else 0)
      = after + if t.kind = closing then 1 else 0) :
    Settles opening closing pending (t :: ts) ↔ Settles opening closing after ts := by
  constructor
  · intro h
    constructor
    · intro front hfront
      have hle := h.prefixes (t :: front) ((List.prefix_cons_inj t).2 hfront)
      rw [tally_cons, tally_cons] at hle
      omega
    · have htotal := h.total
      rw [tally_cons, tally_cons] at htotal
      omega
  · intro h
    constructor
    · intro front hfront
      -- The empty front closes nothing; every other one begins with the token.
      obtain rfl | ⟨us, rfl, hus⟩ := List.prefix_cons_iff.1 hfront
      · exact Nat.zero_le _
      · have hle := h.prefixes us hus
        rw [tally_cons, tally_cons]
        omega
    · have htotal := h.total
      rw [tally_cons, tally_cons]
      omega

/-- A closing delimiter cannot come first where none is open. -/
theorem not_settles_cons_closing (hne : opening ≠ closing) {t : Token} {ts : Window}
    (ht : t.kind = closing) : ¬ Settles opening closing 0 (t :: ts) := by
  intro h
  have hle := h.prefixes [t] ⟨ts, rfl⟩
  simp [tally_cons, ht, hne.symm] at hle

/-- A window that settles some delimiters may be followed by one that settles others. -/
theorem Settles.append {m n : Nat} {front behind : Window}
    (hf : Settles opening closing m front) (hb : Settles opening closing n behind) :
    Settles opening closing (m + n) (front ++ behind) := by
  constructor
  · intro us hus
    -- A front of both ends within the first window, or it is all of it and a front of the second.
    rcases List.prefix_or_prefix_of_prefix hus (List.prefix_append front behind) with h | h
    · have hle := hf.prefixes us h
      omega
    · obtain ⟨vs, rfl⟩ := h
      have hle := hb.prefixes vs ((List.prefix_append_right_inj front).1 hus)
      have htotal := hf.total
      rw [tally_append, tally_append]
      omega
  · have hft := hf.total
    have hbt := hb.total
    rw [tally_append, tally_append]
    omega

/-! ### Balanced windows -/

/-- No front closes more than it opens, and what is opened is closed. -/
structure Balanced (opening closing : Kind) (ts : Window) : Prop where
  /-- No front closes more than it opens. -/
  prefixes : ∀ front, front <+: ts → tally closing front ≤ tally opening front
  /-- As much is closed as is opened. -/
  total : tally closing ts = tally opening ts

theorem settles_zero_iff {ts : Window} :
    Settles opening closing 0 ts ↔ Balanced opening closing ts := by
  constructor
  · intro h
    obtain ⟨hprefixes, htotal⟩ := h
    simp only [Nat.zero_add] at hprefixes htotal
    exact ⟨hprefixes, htotal⟩
  · intro h
    obtain ⟨hprefixes, htotal⟩ := h
    refine ⟨?_, ?_⟩
    · simpa only [Nat.zero_add] using hprefixes
    · simpa only [Nat.zero_add] using htotal

theorem balanced_of_forall_ne {ts : Window}
    (h : ∀ t ∈ ts, t.kind ≠ opening ∧ t.kind ≠ closing) : Balanced opening closing ts := by
  have hclosing : tally closing ts = 0 := tally_eq_zero_iff.2 fun t ht => (h t ht).2
  have hopening : tally opening ts = 0 := tally_eq_zero_iff.2 fun t ht => (h t ht).1
  constructor
  · intro front hfront
    have hle : tally closing front ≤ tally closing ts := tally_le_of_prefix hfront
    omega
  · rw [hclosing, hopening]

theorem Balanced.append {front behind : Window} (hf : Balanced opening closing front)
    (hb : Balanced opening closing behind) : Balanced opening closing (front ++ behind) :=
  settles_zero_iff.1 ((settles_zero_iff.2 hf).append (settles_zero_iff.2 hb))

/-- A balanced window between two matching delimiters is balanced with them. -/
theorem Balanced.enclose (hne : opening ≠ closing) {s t : Token} {ts : Window}
    (hs : s.kind = opening) (ht : t.kind = closing) (h : Balanced opening closing ts) :
    Balanced opening closing (s :: (ts ++ [t])) := by
  have hlast : Settles opening closing 1 [t] := by
    rw [settles_cons_iff 0 (by simp [ht, hne.symm])]
    exact settles_nil_iff.2 rfl
  have hbehind : Settles opening closing 1 (ts ++ [t]) := by
    simpa only [Nat.zero_add] using (settles_zero_iff.2 h).append hlast
  rw [← settles_zero_iff, settles_cons_iff 1 (by simp [hs, hne])]
  exact hbehind

/-! ### Cutting at the matching delimiter -/

/-- The cut finds the inside that settles what is pending, and the delimiter behind it that closes
one more. -/
theorem toClosing?_eq_some_iff (hne : opening ≠ closing) {pending : Nat} {ts inner rest : Window} :
    toClosing? opening closing pending ts = some (inner, rest) ↔
      Settles opening closing pending inner ∧
        ∃ t, t.kind = closing ∧ ts = inner ++ t :: rest := by
  induction ts generalizing pending inner with
  | nil => simp [toClosing?]
  | cons s ts ih =>
    -- a token of the inside changes what is pending, and the rest is cut in the same way
    have step {after : Nat} (hafter : pending + (if s.kind = opening then 1 else 0)
          = after + if s.kind = closing then 1 else 0)
        (hlast : ¬ (s.kind = closing ∧ pending = 0)) :
        (toClosing? opening closing after ts).map (fun p => (s :: p.1, p.2)) = some (inner, rest) ↔
          Settles opening closing pending inner ∧
            ∃ t, t.kind = closing ∧ s :: ts = inner ++ t :: rest := by
      constructor
      · intro h
        obtain ⟨⟨inner', rest'⟩, h', heq⟩ := Option.map_eq_some_iff.1 h
        simp only [Prod.mk.injEq] at heq
        obtain ⟨rfl, rfl⟩ := heq
        obtain ⟨hsettles, t, ht, rfl⟩ := ih.1 h'
        exact ⟨(settles_cons_iff _ hafter).2 hsettles, t, ht, rfl⟩
      · intro h
        obtain ⟨hsettles, t, ht, heq⟩ := h
        cases inner with
        | nil =>
          simp only [List.nil_append, List.cons.injEq] at heq
          exact absurd ⟨heq.1 ▸ ht, settles_nil_iff.1 hsettles⟩ hlast
        | cons u inner =>
          simp only [List.cons_append, List.cons.injEq] at heq
          obtain ⟨rfl, rfl⟩ := heq
          rw [ih.2 ⟨(settles_cons_iff _ hafter).1 hsettles, t, ht, rfl⟩]
          rfl
    rw [toClosing?.eq_def]
    dsimp only
    split
    · rename_i hopen
      exact step (by simp [hopen, hne]) fun h => hne (hopen.symm.trans h.1)
    · rename_i hopen
      split
      · rename_i hclose
        split
        · constructor
          · intro h
            simp only [Option.some.injEq, Prod.mk.injEq] at h
            obtain ⟨rfl, rfl⟩ := h
            exact ⟨settles_nil_iff.2 rfl, s, hclose, rfl⟩
          · intro h
            obtain ⟨hsettles, t, ht, heq⟩ := h
            cases inner with
            | nil =>
              simp only [List.nil_append, List.cons.injEq] at heq
              rw [heq.2]
            | cons u inner =>
              simp only [List.cons_append, List.cons.injEq] at heq
              exact absurd hsettles (not_settles_cons_closing hne (heq.1 ▸ hclose))
        · exact step (by simp [hclose, hne.symm]) fun h => absurd h.2 (by simp)
      · rename_i hclose
        exact step (by simp [hopen, hclose]) fun h => hclose h.1

/-- **The cut at the matching delimiter** finds the balanced inside of a pair. -/
theorem delimited?_eq_some_iff (hne : opening ≠ closing) {ts inner rest : Window} :
    delimited? opening closing ts = some (inner, rest) ↔
      Balanced opening closing inner ∧
        ∃ s t, s.kind = opening ∧ t.kind = closing ∧ ts = s :: (inner ++ t :: rest) := by
  cases ts with
  | nil => simp [delimited?]
  | cons s ts =>
    rw [delimited?]
    split
    · rename_i hs
      rw [toClosing?_eq_some_iff hne, settles_zero_iff]
      constructor
      · intro h
        obtain ⟨hb, t, ht, rfl⟩ := h
        exact ⟨hb, s, t, hs, ht, rfl⟩
      · intro h
        obtain ⟨hb, s', t, -, ht, heq⟩ := h
        exact ⟨hb, t, ht, (List.cons.inj heq).2⟩
    · rename_i hs
      constructor
      · intro h
        simp at h
      · intro h
        obtain ⟨-, s', t, hs', -, heq⟩ := h
        exact absurd ((List.cons.inj heq).1 ▸ hs') hs

end Scriptlet.Window
