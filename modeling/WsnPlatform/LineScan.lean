/-
**Reading a text line by line.**

A reader looks at one element after the other and collects a line, which it hands over at a
separator if it is not empty.  It ends at the end of the text, or at an element that it takes for
the end.  The lines that it hands over are the nonempty lines of the text exactly if nothing is
taken for the end and the last line has its separator.

Nothing here is about a particular program.

Main definitions:

* `LineScan.lines` — the nonempty lines of a text;
* `LineScan.closed` — the lines that the reader hands over;
* `LineScan.Ended` — a text whose last line, if it has any, has its separator.

Main results:

* `LineScan.induction_lines` — induction along the lines;
* `LineScan.closed_prefix` — the reader hands over the first lines of the text;
* `LineScan.closed_eq_iff` — when these are all lines.
-/

import Mathlib.Data.List.Basic

set_option relaxedAutoImplicit false
set_option autoImplicit false

namespace LineScan

universe u

variable {α : Type u} [DecidableEq α]

/-- **The nonempty lines of a text.** -/
def lines (sep : α) (text : List α) : List (List α) :=
  (text.splitOn sep).filter (· ≠ [])

/-- **The lines that the reader hands over**, with some of a line collected already. -/
def closed (sep stop : α) : List α → List α → List (List α)
  | _, [] => []
  | line, c :: text =>
      if c = stop then []
      else if c = sep then
        if line = [] then closed sep stop [] text else line :: closed sep stop [] text
      else closed sep stop (line ++ [c]) text

/-- The last line has its separator. -/
def Ended (sep : α) (text : List α) : Prop := text = [] ∨ text.getLast? = some sep

variable {sep stop : α} {line text : List α}

/-- **Induction along the lines of a text**: the last one, and a line in front of others. -/
theorem induction_lines (sep : α) {P : List α → Prop} (last : ∀ line, sep ∉ line → P line)
    (cons : ∀ line text, sep ∉ line → P text → P (line ++ sep :: text)) (text : List α) :
    P text := by
  induction hn : text.length using Nat.strongRecOn generalizing text with
  | ind n ih =>
      by_cases hsep : sep ∈ text
      · obtain ⟨line, rest, rfl, hline⟩ := List.eq_append_cons_of_mem hsep
        rw [List.length_append, List.length_cons] at hn
        exact cons line rest hline (ih rest.length (by omega) rest rfl)
      · exact last text hsep

/-- A text is cut at one separator only, if there are as many in front of it. -/
theorem cut_unique {front front' rest rest' : List α} (hcount : front.count sep = front'.count sep)
    (h : front ++ sep :: rest = front' ++ sep :: rest') : rest = rest' := by
  induction front generalizing front' with
  | nil =>
      cases front' with
      | nil => exact (List.cons.inj h).2
      | cons c front' =>
          obtain ⟨rfl, -⟩ := List.cons.inj h
          rw [List.count_nil, List.count_cons_self] at hcount
          omega
  | cons b front ih =>
      cases front' with
      | nil =>
          obtain ⟨rfl, -⟩ := List.cons.inj h
          rw [List.count_nil, List.count_cons_self] at hcount
          omega
      | cons c front' =>
          obtain ⟨rfl, htail⟩ := List.cons.inj h
          rw [List.count_cons, List.count_cons, Nat.add_right_cancel_iff] at hcount
          exact ih hcount htail

/-- **A text has no more than `n` separators, or is cut at the next one.** -/
theorem exists_cut (sep : α) (n : ℕ) (text : List α) :
    text.count sep ≤ n ∨ ∃ front rest, front.count sep = n ∧ text = front ++ sep :: rest := by
  induction text generalizing n with
  | nil => exact Or.inl (Nat.zero_le n)
  | cons c text ih =>
      by_cases hc : c = sep
      · subst hc
        cases n with
        | zero => exact Or.inr ⟨[], text, rfl, rfl⟩
        | succ n =>
            rcases ih n with hfew | ⟨front, rest, hcount, rfl⟩
            · exact Or.inl (by rw [List.count_cons_self]; omega)
            · exact Or.inr ⟨c :: front, rest, by rw [List.count_cons_self, hcount], rfl⟩
      · rcases ih n with hfew | ⟨front, rest, hcount, rfl⟩
        · exact Or.inl (by rwa [List.count_cons_of_ne hc])
        · exact Or.inr ⟨c :: front, rest, by rwa [List.count_cons_of_ne hc], rfl⟩

theorem lines_of_not_mem (h : sep ∉ line) : lines sep line = if line = [] then [] else [line] := by
  rw [lines, List.splitOn_eq_singleton h]
  split_ifs with hnil
  · simp [hnil]
  · simp [hnil]

/-- The first line of a text. -/
theorem lines_append_sep (h : sep ∉ line) (text : List α) :
    lines sep (line ++ sep :: text) =
      if line = [] then lines sep text else line :: lines sep text := by
  rw [lines, List.splitOn_append_cons_self_of_not_mem h]
  split_ifs with hnil
  · simp [hnil, lines]
  · simp [hnil, lines]

/-- What is collected is the front of the first piece. -/
theorem exists_first (h : sep ∉ line) (text : List α) :
    ∃ first ∈ (line ++ text).splitOn sep, line <+: first := by
  induction text generalizing line with
  | nil =>
      rw [List.append_nil, List.splitOn_eq_singleton h]
      exact ⟨line, List.mem_singleton_self line, List.prefix_refl line⟩
  | cons c text ih =>
      by_cases hc : c = sep
      · subst hc
        rw [List.splitOn_append_cons_self_of_not_mem h]
        exact ⟨line, List.mem_cons_self, List.prefix_refl line⟩
      · have hline : sep ∉ line ++ [c] := by
          simp [h, Ne.symm hc]
        obtain ⟨first, hfirst, hprefix⟩ := ih hline
        rw [List.append_assoc] at hfirst
        exact ⟨first, hfirst, (List.prefix_append line [c]).trans hprefix⟩

/-- A text with something else than separators has a line. -/
theorem lines_ne_nil {c : α} (hc : c ∈ text) (hne : c ≠ sep) : lines sep text ≠ [] := by
  induction text with
  | nil => cases hc
  | cons b text ih =>
      rw [lines, List.splitOn_cons_eq_if_modifyHead]
      split_ifs with hb
      · have hmem : c ∈ text := by
          rcases List.mem_cons.1 hc with rfl | hmem
          · exact absurd (beq_iff_eq.1 hb) hne
          · exact hmem
        simpa [lines] using ih hmem
      · obtain ⟨first, rest, hsplit⟩ := List.exists_cons_of_ne_nil (List.splitOn_ne_nil sep text)
        simp [hsplit]

omit [DecidableEq α] in
theorem ended_append_sep (line text : List α) :
    Ended sep (line ++ sep :: text) ↔ Ended sep text := by
  cases text with
  | nil => simp [Ended]
  | cons b text => simp [Ended, List.getLast?_cons_cons]

omit [DecidableEq α] in
theorem ended_of_not_mem (h : sep ∉ line) : Ended sep line ↔ line = [] := by
  constructor
  · rintro (hnil | hlast)
    · exact hnil
    · exact absurd (List.mem_of_getLast? hlast) h
  · exact Or.inl

/-- **The reader hands over the first lines of the text.** -/
theorem closed_prefix (stop : α) (h : sep ∉ line) (text : List α) :
    closed sep stop line text <+: lines sep (line ++ text) := by
  induction text generalizing line with
  | nil => exact List.nil_prefix
  | cons c text ih =>
      rw [closed]
      split_ifs with hstop hsep hnil
      · exact List.nil_prefix
      · rw [hsep, lines_append_sep h, if_pos hnil]
        exact ih List.not_mem_nil
      · rw [hsep, lines_append_sep h, if_neg hnil]
        exact List.cons_prefix_cons.2 ⟨rfl, ih List.not_mem_nil⟩
      · have hline : sep ∉ line ++ [c] := by
          simp [h, Ne.symm hsep]
        have hprefix := ih hline
        rwa [List.append_assoc] at hprefix

/-- **When the reader hands over every line.** -/
theorem closed_eq_iff (hstop : stop ≠ sep) (h : sep ∉ line) (text : List α) :
    closed sep stop line text = lines sep (line ++ text) ↔
      stop ∉ text ∧ Ended sep (line ++ text) := by
  induction text generalizing line with
  | nil =>
      rw [List.append_nil, ended_of_not_mem h, lines_of_not_mem h, closed]
      split_ifs with hnil
      · simp [hnil]
      · simp [hnil]
  | cons c text ih =>
      rw [closed]
      split_ifs with hc hsep hnil
      · have hlines : lines sep (line ++ c :: text) ≠ [] :=
          lines_ne_nil (List.mem_append_right line List.mem_cons_self) (hc ▸ hstop)
        simp [hc, hc ▸ hlines.symm]
      · have hih : closed sep stop [] text = lines sep text ↔ stop ∉ text ∧ Ended sep text :=
          ih List.not_mem_nil
        rw [hsep, lines_append_sep h, if_pos hnil, ended_append_sep]
        simpa [Ne.symm hstop, hstop] using hih
      · have hih : closed sep stop [] text = lines sep text ↔ stop ∉ text ∧ Ended sep text :=
          ih List.not_mem_nil
        rw [hsep, lines_append_sep h, if_neg hnil, ended_append_sep, List.cons.injEq]
        simpa [Ne.symm hstop, hstop] using hih
      · have hline : sep ∉ line ++ [c] := by
          simp [h, Ne.symm hsep]
        have hih := ih hline
        rw [List.append_assoc, List.singleton_append] at hih
        rw [hih, List.mem_cons, not_or]
        simp [Ne.symm hc]

end LineScan
