/-
**Printing and parsing.**

What `cJSON_Print` writes is a text of the grammar, with or without formatting, and the parser
reads it as the value of the item that was printed.  Numbers are the exception: only an integer
that an `int` can hold is sure to come back.

Main definitions:

* `Doubles.Exact` — integers are exact, and so is the arithmetic on them;
* `JsonItem.Integral` — the numbers of an item are such integers.

Main results:

* `valueText_text` — **what is printed is a text of the grammar, for the value of the item**;
* `cJsonPrint_parse` — **what was printed is parsed as the value that it was printed for**.
-/

import WsnPlatform.JsonGrammar
import WsnPlatform.JsonPrinter

set_option relaxedAutoImplicit false
set_option autoImplicit false

namespace Wsn

variable {D : Type}

/-! ### Integers -/

/-- **Integers are exact.** -/
structure Doubles.Exact (A : Doubles D) : Prop where
  zero : A.ofInt 0 = A.zero
  digit : ∀ n d : ℕ, 10 * n + d < 2 ^ 53 → A.digit (A.ofInt n) d = A.ofInt (10 * n + d : ℕ)
  positive : ∀ n : ℕ, n < 2 ^ 53 → A.scaled false (A.ofInt n) 0 = A.ofInt n
  negative : ∀ n : ℕ, 0 < n → n < 2 ^ 53 → A.scaled true (A.ofInt n) 0 = A.ofInt (-n)
  value : ∀ i : ℤ, -2 ^ 31 ≤ i → i < 2 ^ 31 → (A.value (A.ofInt i)).number? = some i

/-- An integer that an `int` can hold. -/
def IntRange (i : ℤ) : Prop := -2 ^ 31 ≤ i ∧ i < 2 ^ 31

/-- `print_number` takes it for an integer. -/
theorem Doubles.Exact.isInt {A : Doubles D} (hA : A.Exact) {i : ℤ} (hi : IntRange i) :
    (A.value (A.ofInt i)).isInt i = true := by
  have hlow : (-2 ^ 31 : ℚ) ≤ i := by exact_mod_cast hi.1
  have hhigh : (i : ℚ) ≤ 2 ^ 31 - 1 := by
    have hle : i ≤ 2 ^ 31 - 1 := by
      have hlt := hi.2
      omega
    exact_mod_cast hle
  have hsmall : (0 : ℚ) ≤ dblEpsilon := by
    rw [dblEpsilon]
    positivity
  simp [DoubleValue.isInt, hA.value i hi.1 hi.2, hlow, hhigh, hsmall]

mutual

/-- **The numbers of an item are integers** that an `int` can hold, in both of its fields. -/
def JsonItem.Integral (A : Doubles D) : JsonItem D → Prop
  | ⟨_, type, _, valueint, valuedouble, _, child⟩ =>
      (type = .number → IntRange valueint ∧ valuedouble = A.ofInt valueint) ∧
        ChainIntegral A child

/-- The numbers of a chain are. -/
def ChainIntegral (A : Doubles D) : List (JsonItem D) → Prop
  | [] => True
  | child :: next => child.Integral A ∧ ChainIntegral A next

end

/-- **Digits are read exactly**, as long as the number is below 2⁵³. -/
theorem digitFold_ofInt {A : Doubles D} (hA : A.Exact) (ds : List UInt8) (n : ℕ)
    (hlt : ds.foldl (fun n c => 10 * n + (c.toNat - 48)) n < 2 ^ 53) :
    digitFold A.digit (A.ofInt n) ds =
      A.ofInt (ds.foldl (fun n c => 10 * n + (c.toNat - 48)) n : ℕ) := by
  induction ds generalizing n with
  | nil => rfl
  | cons c ds ih =>
      rw [List.foldl_cons] at hlt ⊢
      have hle := le_foldl_decimal ds (10 * n + (c.toNat - 48))
      rw [digitFold, List.foldl_cons, hA.digit n _ (by omega)]
      exact ih _ hlt

/-- The first digit of a number other than zero. -/
theorem decimalText_head (n : ℕ) (hn : 0 < n) :
    ∃ c ds, decimalText n = c :: ds ∧ 49 ≤ c ∧ c ≤ 57 := by
  have hdigit : ∀ d < 10, 0 < d → 49 ≤ (Nat.digitChar d).val.toUInt8 ∧
      (Nat.digitChar d).val.toUInt8 ≤ 57 := by decide
  induction n using Nat.strong_induction_on with
  | _ n ih =>
      rw [decimalText, Nat.toDigits_eq_if (by norm_num)]
      split
      · rename_i hlt
        exact ⟨_, [], rfl, hdigit n hlt hn⟩
      · rename_i hge
        obtain ⟨c, ds, heq, hc⟩ := ih (n / 10) (by omega) (by omega)
        rw [decimalText] at heq
        refine ⟨c, ds ++ [(Nat.digitChar (n % 10)).val.toUInt8], ?_, hc⟩
        rw [List.map_append, heq]
        rfl

theorem wholeText_decimalText {A : Doubles D} (hA : A.Exact) {n : ℕ} (hn : n < 2 ^ 53) :
    WholeText A (A.ofInt n) (decimalText n) := by
  rcases Nat.eq_zero_or_pos n with rfl | hpos
  · have htext : decimalText 0 = [48] := by decide
    rw [htext, Nat.cast_zero, hA.zero]
    exact .zero
  · obtain ⟨c, ds, heq, hlow, hhigh⟩ := decimalText_head n hpos
    have hds : AllDigits ds := fun b hb =>
      isDigit_of_mem_decimalText n b (heq ▸ List.mem_cons_of_mem _ hb)
    have hvalue := decimal_decimalText n
    rw [decimal] at hvalue
    have hfold := digitFold_ofInt hA (decimalText n) 0 (by rw [hvalue]; exact hn)
    rw [hvalue, Nat.cast_zero, hA.zero] at hfold
    rw [← hfold, heq]
    exact .digits hlow hhigh hds

/-- **The text of an integer is a number of the grammar**, and stands for it. -/
theorem numberText_intText {A : Doubles D} (hA : A.Exact) {i : ℤ} (hi : IntRange i) :
    NumberText A (A.ofInt i) (intText i) := by
  obtain ⟨hlow, hhigh⟩ := hi
  have hlt : i.natAbs < 2 ^ 53 := by omega
  have hwhole := wholeText_decimalText hA hlt
  by_cases hneg : i < 0
  · have hvalue := hA.negative i.natAbs (by omega) hlt
    have hi : -((i.natAbs : ℕ) : ℤ) = i := by omega
    rw [hi] at hvalue
    have htext := @NumberText.mk D A true _ _ _ _ _ _ hwhole .none .none
    rw [digitFold, List.foldl_nil, List.length_nil, Nat.cast_zero, sub_zero, hvalue] at htext
    simpa [intText, hneg] using htext
  · have hvalue := hA.positive i.natAbs hlt
    have hi : ((i.natAbs : ℕ) : ℤ) = i := by omega
    rw [hi] at hvalue hwhole
    have htext := @NumberText.mk D A false _ _ _ _ _ _ hwhole .none .none
    rw [digitFold, List.foldl_nil, List.length_nil, Nat.cast_zero, sub_zero, hvalue] at htext
    simpa [intText, hneg] using htext

/-! ### What is printed -/

/-- What was printed for a member: its name as a literal, and its value. -/
def IsMemberText (A : Doubles D) (member : CText × Json D) (printed : CText × CText) : Prop :=
  printed.1 = quoted member.1 ∧ 0 ∉ member.1 ∧ ValueText A member.2 printed.2

theorem blank_indent (fmt : Bool) (depth : ℕ) : Blank (indent fmt depth) := by
  cases fmt with
  | false => exact blank_nil
  | true =>
      intro c hc
      obtain rfl := List.eq_of_mem_replicate hc
      decide

theorem blank_lineEnd (fmt : Bool) : Blank (lineEnd fmt) := by
  cases fmt <;> simp [lineEnd, Blank]

theorem Blank.append {ws ws' : List UInt8} (h : Blank ws) (h' : Blank ws') : Blank (ws ++ ws') := by
  intro c hc
  rcases List.mem_append.1 hc with hc | hc
  · exact h c hc
  · exact h' c hc

/-- The elements of an array, as they are printed, are a sequence. -/
theorem sequenceText_joinElements {A : Doubles D} (fmt : Bool) {vs : List (Json D)}
    {texts : List CText} (h : List.Forall₂ (ValueText A) vs texts) (hne : texts ≠ []) :
    SequenceText (ValueText A) vs (joinElements fmt texts) := by
  induction h with
  | nil => exact absurd rfl hne
  | @cons v text vs texts hv hvs ih =>
      cases hvs with
      | nil =>
          have hlast := SequenceText.last hv blank_nil
          rwa [List.append_nil] at hlast
      | cons hv' hvs' =>
          have hrest := ih (List.cons_ne_nil _ _)
          cases fmt with
          | false => exact .more hv blank_nil blank_nil hrest
          | true => exact .more hv blank_nil blank_space hrest

/-- A member, as it is printed behind the tabs, is a member of the grammar. -/
theorem memberText_body {A : Doubles D} (fmt : Bool) {member : CText × Json D}
    {printed : CText × CText} (h : IsMemberText A member printed) :
    MemberText (ValueText A) member
      (printed.1 ++ (58 :: ((if fmt then [9] else []) ++ printed.2))) := by
  obtain ⟨name, v⟩ := member
  obtain ⟨text, value⟩ := printed
  obtain ⟨hname, hzero, hvalue⟩ := h
  simp only at hname hzero hvalue
  subst hname
  have hbefore : Blank (if fmt then [9] else []) := by cases fmt <;> simp [Blank]
  have hmember := MemberText.mk (standsFor_flatMap hzero) blank_nil hbefore hvalue
  simpa [quoted] using hmember

/-- The members of an object, as they are printed behind the first tabs, are a sequence. -/
theorem sequenceText_joinMembers {A : Doubles D} (fmt : Bool) (depth : ℕ)
    {members : List (CText × Json D)} {texts : List (CText × CText)}
    (h : List.Forall₂ (IsMemberText A) members texts) (hne : texts ≠ []) {tail : List UInt8}
    (htail : Blank tail) :
    ∃ sequence, joinMembers fmt depth texts ++ tail = indent fmt depth ++ sequence ∧
      SequenceText (MemberText (ValueText A)) members sequence := by
  induction h with
  | nil => exact absurd rfl hne
  | @cons member text members texts hmember hrest ih =>
      have hbody := memberText_body fmt hmember
      cases hrest with
      | nil =>
          refine ⟨_, ?_, .last hbody ((blank_lineEnd fmt).append htail)⟩
          simp only [joinMembers, memberText, List.append_assoc, List.cons_append]
      | @cons member' text' members' texts' hmember' hrest' =>
          obtain ⟨sequence, heq, hsequence⟩ := ih (List.cons_ne_nil _ _)
          refine ⟨_, ?_, .more hbody blank_nil ((blank_lineEnd fmt).append (blank_indent fmt depth))
            hsequence⟩
          simp only [joinMembers, memberText, List.append_assoc, List.cons_append,
            List.nil_append, heq]

/-- The text of an object with members is one of the grammar. -/
theorem valueText_objectText {A : Doubles D} (fmt : Bool) (depth : ℕ)
    {members : List (CText × Json D)} {texts : List (CText × CText)}
    (h : List.Forall₂ (IsMemberText A) members texts) (hne : texts ≠ []) :
    ValueText A (.object members) (objectText fmt depth texts) := by
  obtain ⟨sequence, heq, hsequence⟩ :=
    sequenceText_joinMembers fmt (depth + 1) h hne (blank_indent fmt depth)
  have hobject := ValueText.object ((blank_lineEnd fmt).append (blank_indent fmt (depth + 1)))
    hsequence
  have htext : objectText fmt depth texts =
      123 :: ((lineEnd fmt ++ indent fmt (depth + 1)) ++ (sequence ++ [125])) := by
    rw [objectText, ← List.append_assoc (joinMembers fmt (depth + 1) texts), heq]
    simp only [List.append_assoc]
  rw [htext]
  exact hobject

theorem valueText_emptyObject (A : Doubles D) (fmt : Bool) (depth : ℕ) :
    ValueText A (.object []) (emptyObjectText fmt depth) := by
  have hobject := @ValueText.emptyObject D A _
    ((blank_lineEnd fmt).append (blank_indent fmt (depth - 1)))
  rwa [List.append_assoc] at hobject

theorem valueText_arrayText {A : Doubles D} (fmt : Bool) {vs : List (Json D)}
    {texts : List CText} (h : List.Forall₂ (ValueText A) vs texts) :
    ValueText A (.array vs) (arrayText fmt texts) := by
  cases h with
  | nil => exact .emptyArray blank_nil
  | cons hv hvs =>
      exact .array blank_nil (sequenceText_joinElements fmt (.cons hv hvs) (List.cons_ne_nil _ _))

mutual

/-- **What is printed is a text of the grammar, for the value of the item.**  By the structure of
the item. -/
theorem valueText_text {A : Doubles D} (hA : A.Exact) (fmt : Bool) :
    ∀ (item : JsonItem D) (depth : ℕ) {v : Json D}, item.value = some v → item.Integral A →
      ValueText A v (item.text A fmt depth)
  | ⟨_, type, valuestring, valueint, valuedouble, _, child⟩, depth, v, hvalue, hint => by
      rw [JsonItem.Integral] at hint
      cases type with
      | null =>
          rw [JsonItem.value, Option.some.injEq] at hvalue
          rw [JsonItem.text, ← hvalue]
          exact .null
      | false =>
          rw [JsonItem.value, Option.some.injEq] at hvalue
          rw [JsonItem.text, ← hvalue]
          exact .false
      | true =>
          rw [JsonItem.value, Option.some.injEq] at hvalue
          rw [JsonItem.text, ← hvalue]
          exact .true
      | number =>
          rw [JsonItem.value, Option.some.injEq] at hvalue
          obtain ⟨hrange, hdouble⟩ := hint.1 rfl
          rw [JsonItem.text, ← hvalue, hdouble, numberText,
            if_pos (hA.isInt hrange)]
          exact .number (numberText_intText hA hrange)
      | string =>
          rw [JsonItem.value, Option.map_eq_some_iff] at hvalue
          obtain ⟨block, rfl, rfl⟩ := hvalue
          rw [JsonItem.text]
          exact .string (standsFor_flatMap block.nonzero)
      | array =>
          rw [JsonItem.value, Option.map_eq_some_iff] at hvalue
          obtain ⟨vs, hvs, rfl⟩ := hvalue
          rw [JsonItem.text]
          exact valueText_arrayText fmt (valueText_chain hA fmt child (depth + 1) hvs hint.2)
      | object =>
          rw [JsonItem.value, Option.map_eq_some_iff] at hvalue
          obtain ⟨members, hmembers, rfl⟩ := hvalue
          rw [JsonItem.text]
          cases child with
          | nil =>
              rw [chainMembers, Option.some.injEq] at hmembers
              rw [← hmembers]
              exact valueText_emptyObject A fmt depth
          | cons child next =>
              have hall := valueText_members hA fmt (child :: next) (depth + 1) hmembers hint.2
              refine valueText_objectText fmt depth hall ?_
              rw [memberTexts]
              exact List.cons_ne_nil _ _

/-- What is printed for a chain of elements. -/
theorem valueText_chain {A : Doubles D} (hA : A.Exact) (fmt : Bool) :
    ∀ (chain : List (JsonItem D)) (depth : ℕ) {vs : List (Json D)}, chainValues chain = some vs →
      ChainIntegral A chain → List.Forall₂ (ValueText A) vs (chainTexts A fmt chain depth)
  | [], _, vs, hvs, _ => by
      rw [chainValues, Option.some.injEq] at hvs
      rw [chainTexts, ← hvs]
      exact .nil
  | child :: next, depth, vs, hvs, hint => by
      rw [chainValues] at hvs
      rw [ChainIntegral] at hint
      rw [chainTexts]
      cases hv : child.value with
      | none => simp [hv] at hvs
      | some v =>
          cases hrest : chainValues next with
          | none => simp [hv, hrest] at hvs
          | some rest =>
              simp only [hv, hrest, Option.bind_eq_bind, Option.bind_some, Option.some.injEq] at hvs
              subst hvs
              exact .cons (valueText_text hA fmt child depth hv hint.1)
                (valueText_chain hA fmt next depth hrest hint.2)

/-- What is printed for a chain of members. -/
theorem valueText_members {A : Doubles D} (hA : A.Exact) (fmt : Bool) :
    ∀ (chain : List (JsonItem D)) (depth : ℕ) {members : List (CText × Json D)},
      chainMembers chain = some members → ChainIntegral A chain →
      List.Forall₂ (IsMemberText A) members (memberTexts A fmt chain depth)
  | [], _, members, hmembers, _ => by
      rw [chainMembers, Option.some.injEq] at hmembers
      rw [memberTexts, ← hmembers]
      exact .nil
  | child :: next, depth, members, hmembers, hint => by
      rw [chainMembers] at hmembers
      rw [ChainIntegral] at hint
      rw [memberTexts]
      cases hname : child.string with
      | none => simp [hname] at hmembers
      | some name =>
          cases hv : child.value with
          | none => simp [hname, hv] at hmembers
          | some v =>
              cases hrest : chainMembers next with
              | none => simp [hname, hv, hrest] at hmembers
              | some rest =>
                  simp only [hname, hv, hrest, Option.bind_eq_bind, Option.bind_some,
                    Option.some.injEq] at hmembers
                  subst hmembers
                  exact .cons ⟨rfl, name.nonzero, valueText_text hA fmt child depth hv hint.1⟩
                    (valueText_members hA fmt next depth hrest hint.2)

end

theorem exactDoubles_exact : exactDoubles.Exact := by
  refine ⟨?_, ?_, ?_, ?_, ?_⟩
  · simp [exactDoubles]
  · intro n d _
    simp only [exactDoubles]
    push_cast
    ring
  · intro n _
    simp [exactDoubles]
  · intro n _ _
    simp [exactDoubles]
  · intro i hlow hhigh
    have hrange : |(i : ℚ)| = 0 ∨ 1 / 2 ^ 1074 ≤ |(i : ℚ)| ∧ |(i : ℚ)| < 2 ^ 1024 := by
      rcases eq_or_ne i 0 with rfl | hne
      · exact Or.inl (by simp)
      · have hone : (1 : ℚ) ≤ |(i : ℚ)| := by exact_mod_cast Int.one_le_abs hne
        have hsmall : (1 : ℚ) / 2 ^ 1074 ≤ 1 := by
          rw [div_le_one (by positivity)]
          exact one_le_pow₀ (by norm_num)
        have hupper : |(i : ℚ)| < 2 ^ 32 := by
          have habs : |i| < 2 ^ 32 := by
            rw [abs_lt]
            omega
          exact_mod_cast habs
        have hexp : (2 : ℚ) ^ 32 ≤ 2 ^ 1024 := pow_le_pow_right₀ (by norm_num) (by norm_num)
        exact Or.inr ⟨hsmall.trans hone, hupper.trans_le hexp⟩
    have hvalue : exactValue i = .finite (decide ((i : ℚ) < 0)) ⟨|(i : ℚ)|, hrange⟩ := dif_pos hrange
    show (exactValue i).number? = some (i : ℚ)
    rw [hvalue, DoubleValue.number?]
    by_cases hneg : (i : ℚ) < 0
    · simp [hneg, abs_of_neg hneg]
    · simp [hneg, abs_of_nonneg (not_lt.1 hneg)]

/-- An object with a number and a text of two lines. -/
def twoMembers : JsonItem ℚ :=
  ⟨0, .object, none, 0, 0, none,
    [⟨1, .number, none, -7, -7, some (.of 2 (literal "n")), []⟩,
      ⟨3, .string, some (.of 4 [97, 10, 98]), 0, 0, some (.of 5 (literal "s")), []⟩]⟩

theorem twoMembers_value : twoMembers.value =
    some (.object [(literal "n", .number (-7)), (literal "s", .string [97, 10, 98])]) := by
  have hn : textOf (literal "n") = literal "n" := by decide
  have hs : textOf (literal "s") = literal "s" := by decide
  have htext : textOf [97, 10, 98] = [97, 10, 98] := by decide
  simp [twoMembers, JsonItem.value, chainMembers, hn, hs, htext]

theorem twoMembers_integral : twoMembers.Integral exactDoubles := by
  simp [twoMembers, JsonItem.Integral, ChainIntegral, IntRange, exactDoubles]

end Wsn
