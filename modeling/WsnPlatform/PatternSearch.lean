/-
**Looking for patterns in a text that arrives in pieces.**

A text is received piece by piece, and a reader waits until one of some patterns occurs in it.  A
reader that looks at each piece by itself misses a pattern that begins in one piece and ends in a
later one.  The module says when it does not matter.

Nothing here is about a particular program: texts are lists over any type.

Main definitions:

* `PatternSearch.Shows` — one of the patterns occurs in the text;
* `PatternSearch.Straddles` — one of them begins before a piece and ends in it;
* `PatternSearch.WholeFirst` — a pattern that straddles is not the first to be seen.

Main results:

* `PatternSearch.shows_append_iff` — a pattern occurs in a text, in the piece behind it, or
  straddles;
* `PatternSearch.shows_piece_iff` — looking at each piece by itself finds the first occurrence with
  the same piece exactly if `WholeFirst`.
-/

import Mathlib.Data.List.Infix

set_option relaxedAutoImplicit false
set_option autoImplicit false

namespace PatternSearch

universe u

variable {α : Type u} {patterns : List (List α)}

/-! ### Occurrences -/

/-- **One of the patterns occurs in the text.** -/
def Shows (patterns : List (List α)) (text : List α) : Prop := ∃ p ∈ patterns, p <:+: text

instance [DecidableEq α] (patterns : List (List α)) (text : List α) :
    Decidable (Shows patterns text) :=
  inferInstanceAs (Decidable (∃ p ∈ patterns, p <:+: text))

/-- One of the patterns begins in the text and ends in the piece behind it. -/
def Straddles (patterns : List (List α)) (text piece : List α) : Prop :=
  ∃ p ∈ patterns, ∃ a b, a ≠ [] ∧ b ≠ [] ∧ p = a ++ b ∧ a <:+ text ∧ b <+: piece

@[simp] theorem not_shows_nil (text : List α) : ¬ Shows [] text := by
  rintro ⟨p, hp, -⟩
  cases hp

theorem shows_cons {p : List α} {text : List α} :
    Shows (p :: patterns) text ↔ p <:+: text ∨ Shows patterns text := by
  simp [Shows]

theorem Shows.of_infix {text text' : List α} (h : Shows patterns text) (ht : text <:+: text') :
    Shows patterns text' := by
  obtain ⟨p, hp, hpt⟩ := h
  exact ⟨p, hp, hpt.trans ht⟩

/-- Nothing occurs in the empty text. -/
theorem not_shows_of_nil (hne : ∀ p ∈ patterns, p ≠ []) : ¬ Shows patterns [] := by
  rintro ⟨p, hp, hnil⟩
  exact hne p hp (List.infix_nil.1 hnil)

/-- **Where a pattern occurs** in a text and a piece behind it. -/
theorem shows_append_iff {text piece : List α} :
    Shows patterns (text ++ piece) ↔
      Shows patterns text ∨ Shows patterns piece ∨ Straddles patterns text piece := by
  constructor
  · rintro ⟨p, hp, hocc⟩
    rcases List.infix_append_iff_ne_nil.1 hocc with h | h | h
    · exact Or.inl ⟨p, hp, h⟩
    · exact Or.inr (Or.inl ⟨p, hp, h⟩)
    · exact Or.inr (Or.inr ⟨p, hp, h⟩)
  · rintro (⟨p, hp, h⟩ | ⟨p, hp, h⟩ | ⟨p, hp, h⟩)
    · exact ⟨p, hp, List.infix_append_of_infix_left h⟩
    · exact ⟨p, hp, List.infix_append_of_infix_right h⟩
    · exact ⟨p, hp, List.infix_append_iff_ne_nil.2 (Or.inr (Or.inr h))⟩

/-! ### Pieces -/

/-- A piece of a text shows what it shows in the whole text. -/
theorem Shows.flatten {pieces : List (List α)} {piece : List α} (h : Shows patterns piece)
    (hmem : piece ∈ pieces) : Shows patterns pieces.flatten :=
  h.of_infix (List.infix_of_mem_flatten hmem)

/-- A text that shows a pattern first does so with one of its pieces. -/
theorem exists_first_piece (hne : ∀ p ∈ patterns, p ≠ []) {pieces : List (List α)}
    (h : Shows patterns pieces.flatten) :
    ∃ pre piece post, pieces = pre ++ piece :: post ∧ ¬ Shows patterns pre.flatten ∧
      Shows patterns (pre.flatten ++ piece) := by
  induction pieces using List.reverseRecOn with
  | nil => exact absurd h (not_shows_of_nil hne)
  | append_singleton pieces piece ih =>
      by_cases hpieces : Shows patterns pieces.flatten
      · obtain ⟨pre, first, post, rfl, hpre, hfirst⟩ := ih hpieces
        exact ⟨pre, first, post ++ [piece], by simp, hpre, hfirst⟩
      · exact ⟨pieces, piece, [], rfl, hpieces, by simpa using h⟩

/-- **A pattern that straddles is not the first to be seen**: by then one of the pieces has shown a
pattern by itself. -/
def WholeFirst (patterns pieces : List (List α)) : Prop :=
  ∀ pre piece post, pieces = pre ++ piece :: post → Straddles patterns pre.flatten piece →
    ∃ seen ∈ pre ++ [piece], Shows patterns seen

/-- **Looking at each piece by itself** finds the first occurrence with the piece that completes it
exactly if no pattern that straddles is the first to be seen. -/
theorem shows_piece_iff (hne : ∀ p ∈ patterns, p ≠ []) (pieces : List (List α)) :
    (∀ pre piece post, pieces = pre ++ piece :: post → ¬ Shows patterns pre.flatten →
      Shows patterns (pre.flatten ++ piece) → Shows patterns piece) ↔
      WholeFirst patterns pieces := by
  constructor
  · intro h pre piece post hpieces hstraddle
    by_cases hpre : Shows patterns pre.flatten
    · -- the first occurrence is earlier
      obtain ⟨pre', first, post', rfl, hpre', hfirst⟩ := exists_first_piece hne hpre
      have hshows := h pre' first (post' ++ piece :: post) (by simp [hpieces]) hpre' hfirst
      exact ⟨first, by simp, hshows⟩
    · have hshows := h pre piece post hpieces hpre
        (shows_append_iff.2 (Or.inr (Or.inr hstraddle)))
      exact ⟨piece, by simp, hshows⟩
  · intro h pre piece post hpieces hpre hfirst
    rcases shows_append_iff.1 hfirst with hshows | hshows | hstraddle
    · exact absurd hshows hpre
    · exact hshows
    · obtain ⟨seen, hseen, hshows⟩ := h pre piece post hpieces hstraddle
      rcases List.mem_append.1 hseen with hmem | hmem
      · exact absurd (hshows.flatten hmem) hpre
      · rwa [List.mem_singleton.1 hmem] at hshows

end PatternSearch
