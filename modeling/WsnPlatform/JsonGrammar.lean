/-
**What the parser of cJSON accepts.**

The grammar of JSON, with blanks between the tokens wherever they are allowed, and the values that
its texts stand for.  The parser reads every text of the grammar as its value, whatever stands
behind it.

Main definitions:

* `NumberText`, `SequenceText`, `ValueText` — the grammar.

Main results:

* `parseNumber_text`, `parseChain_text` — the loops read what they are meant for;
* `parseValue_text` — **every text of the grammar is read as its value**, unless a call of `malloc`
  fails;
* `cJsonParse_accepts` — so does `cJSON_ParseWithOpts`, with blanks around the text.
-/

import WsnPlatform.JsonParser

set_option relaxedAutoImplicit false
set_option autoImplicit false

namespace Wsn

variable {D : Type}

/-! ### Values -/

/-- The value of an element. -/
def IsElement (v : Json D) (item : JsonItem D) : Prop := item.value = some v

/-- The name and the value of a member. -/
def IsMember (member : CText × Json D) (item : JsonItem D) : Prop :=
  (∃ name, item.string = some name ∧ name.text = member.1) ∧ item.value = some member.2

theorem chainValues_eq {vs : List (Json D)} {chain : List (JsonItem D)}
    (h : List.Forall₂ IsElement vs chain) : chainValues chain = some vs := by
  induction h with
  | nil => rw [chainValues]
  | cons hv _ ih =>
      rw [chainValues, hv, ih]
      rfl

theorem chainMembers_eq {members : List (CText × Json D)} {chain : List (JsonItem D)}
    (h : List.Forall₂ IsMember members chain) : chainMembers chain = some members := by
  induction h with
  | nil => rw [chainMembers]
  | @cons member c members next hv _ ih =>
      obtain ⟨⟨name, hname, htext⟩, hvalue⟩ := hv
      rw [chainMembers, hname, hvalue, ih]
      simp [htext]

mutual

/-- **The elements of every array have no names.** -/
def JsonItem.Bare : JsonItem D → Prop
  | ⟨_, type, _, _, _, _, child⟩ =>
      (type = .array → ∀ c ∈ child, c.string = none) ∧ ChainBare child

def ChainBare : List (JsonItem D) → Prop
  | [] => True
  | c :: next => c.Bare ∧ ChainBare next

end

theorem chainBare_iff {chain : List (JsonItem D)} : ChainBare chain ↔ ∀ c ∈ chain, c.Bare := by
  induction chain with
  | nil => simp [ChainBare]
  | cons c next ih => simp [ChainBare, ih]

theorem JsonItem.bare_iff {item : JsonItem D} : item.Bare ↔
    (item.type = .array → ∀ c ∈ item.child, c.string = none) ∧ ∀ c ∈ item.child, c.Bare := by
  cases item
  rw [JsonItem.Bare, chainBare_iff]

/-- An item without children. -/
theorem JsonItem.Bare.of_childless {item : JsonItem D} (h : item.child = []) : item.Bare := by
  rw [JsonItem.bare_iff, h]
  exact ⟨fun _ _ hc => absurd hc List.not_mem_nil, fun _ hc => absurd hc List.not_mem_nil⟩

/-! ### The grammar -/

/-- Blanks, as `skip` understands them. -/
def Blank (ws : List UInt8) : Prop := ∀ c ∈ ws, c ≠ 0 ∧ c ≤ 32

/-- A text of digits. -/
def AllDigits (ds : List UInt8) : Prop := ∀ c ∈ ds, isDigit c = true

/-- What a loop makes of digits. -/
def digitFold {α : Type} (f : α → ℕ → α) (n : α) (ds : List UInt8) : α :=
  ds.foldl (fun n c => f n (c.toNat - 48)) n

/-- The digits in front of the point. -/
inductive WholeText (A : Doubles D) : D → List UInt8 → Prop
  | zero : WholeText A A.zero [48]
  | digits {c : UInt8} {ds : List UInt8} : 49 ≤ c → c ≤ 57 → AllDigits ds →
      WholeText A (digitFold A.digit A.zero (c :: ds)) (c :: ds)

/-- The digits behind the point, with the point. -/
inductive FractionText : List UInt8 → List UInt8 → Prop
  | none : FractionText [] []
  | digits {ds : List UInt8} : ds ≠ [] → AllDigits ds → FractionText ds (46 :: ds)

/-- The digits of an exponent, which an `int` can hold. -/
structure ExponentDigits (ds : List UInt8) : Prop where
  ne_nil : ds ≠ []
  digits : AllDigits ds
  fits : decimal ds < 2 ^ 31

/-- The exponent. -/
inductive ExponentText : ℤ → List UInt8 → Prop
  | none : ExponentText 0 []
  | plain {e : UInt8} {ds : List UInt8} : e = 101 ∨ e = 69 → ExponentDigits ds →
      ExponentText (decimal ds) (e :: ds)
  | plus {e : UInt8} {ds : List UInt8} : e = 101 ∨ e = 69 → ExponentDigits ds →
      ExponentText (decimal ds) (e :: 43 :: ds)
  | minus {e : UInt8} {ds : List UInt8} : e = 101 ∨ e = 69 → ExponentDigits ds →
      ExponentText (-decimal ds) (e :: 45 :: ds)

/-- **A number.** -/
inductive NumberText (A : Doubles D) : D → List UInt8 → Prop
  | mk {sign : Bool} {n : D} {e : ℤ} {whole ds fraction exponent : List UInt8} :
      WholeText A n whole → FractionText ds fraction → ExponentText e exponent →
      NumberText A (A.scaled sign (digitFold A.digit n ds) (e - ds.length))
        ((if sign then [45] else []) ++ (whole ++ (fraction ++ exponent)))

/-- **Texts with commas between them**, and blanks around the commas and at the end. -/
inductive SequenceText {α : Type} (P : α → List UInt8 → Prop) : List α → List UInt8 → Prop
  | last {a : α} {text after : List UInt8} : P a text → Blank after →
      SequenceText P [a] (text ++ after)
  | more {a : α} {as : List α} {text after before rest : List UInt8} : P a text → Blank after →
      Blank before → SequenceText P as rest →
      SequenceText P (a :: as) (text ++ (after ++ 44 :: (before ++ rest)))

/-- A member: its name, the colon, and its value. -/
inductive MemberText (P : Json D → List UInt8 → Prop) : CText × Json D → List UInt8 → Prop
  | mk {name lit after before text : List UInt8} {v : Json D} : StandsFor lit name →
      Blank after → Blank before → P v text →
      MemberText P (name, v) (quote :: (lit ++ quote :: (after ++ 58 :: (before ++ text))))

/-- **A text of the grammar, and its value.** -/
inductive ValueText (A : Doubles D) : Json D → List UInt8 → Prop
  | null : ValueText A .null (literal "null")
  | false : ValueText A (.bool false) (literal "false")
  | true : ValueText A (.bool true) (literal "true")
  | number {d : D} {text : List UInt8} : NumberText A d text → ValueText A (.number d) text
  | string {text : CText} {lit : List UInt8} : StandsFor lit text →
      ValueText A (.string text) (quote :: (lit ++ [quote]))
  | emptyArray {ws : List UInt8} : Blank ws → ValueText A (.array []) (91 :: (ws ++ [93]))
  | array {vs : List (Json D)} {ws text : List UInt8} : Blank ws →
      SequenceText (ValueText A) vs text → ValueText A (.array vs) (91 :: (ws ++ (text ++ [93])))
  | emptyObject {ws : List UInt8} : Blank ws → ValueText A (.object []) (123 :: (ws ++ [125]))
  | object {members : List (CText × Json D)} {ws text : List UInt8} : Blank ws →
      SequenceText (MemberText (ValueText A)) members text →
      ValueText A (.object members) (123 :: (ws ++ (text ++ [125])))

/-! ### Reading a number -/

/-- A number ends in front of the text. -/
def Ends (rest : List UInt8) : Prop :=
  ∃ c tail, rest = c :: tail ∧ isDigit c = false ∧ c ≠ 46 ∧ c ≠ 101 ∧ c ≠ 69

/-- A text of digits ends in front of the text. -/
def DigitsEnd (rest : List UInt8) : Prop := ∃ c tail, rest = c :: tail ∧ isDigit c = false

theorem Ends.digitsEnd {rest : List UInt8} (h : Ends rest) : DigitsEnd rest := by
  obtain ⟨c, tail, rfl, hc, -⟩ := h
  exact ⟨c, tail, rfl, hc⟩

/-- **The loop over digits takes all of them.** -/
theorem digitLoop_digits {α : Type} (f : α → ℕ → α) {ds rest : List UInt8} (hds : AllDigits ds)
    (hrest : DigitsEnd rest) (n : α) (count : ℕ) :
    digitLoop f n count (ds ++ rest) = .ok (digitFold f n ds, count + ds.length, rest) := by
  induction ds generalizing n count with
  | nil =>
      obtain ⟨c, tail, rfl, hc⟩ := hrest
      simp [digitLoop, hc, digitFold]
  | cons c ds ih =>
      have hc := hds c List.mem_cons_self
      have htail := ih (fun d hd => hds d (List.mem_cons_of_mem _ hd)) (f n (c.toNat - 48))
        (count + 1)
      rw [List.cons_append, digitLoop, if_pos hc, htail, List.length_cons, Nat.add_assoc,
        Nat.add_comm 1]
      rfl

theorem isDigit_of_le {c : UInt8} (hlow : 49 ≤ c) (hhigh : c ≤ 57) : isDigit c = true := by
  simp only [isDigit, decide_eq_true_eq]
  exact ⟨UInt8.le_trans (by decide) hlow, hhigh⟩

theorem allDigits_cons {c : UInt8} {ds : List UInt8} (hc : isDigit c = true)
    (hds : AllDigits ds) : AllDigits (c :: ds) := by
  intro d hd
  rcases List.mem_cons.1 hd with rfl | hd
  · exact hc
  · exact hds d hd

theorem numberWhole_text {A : Doubles D} {n : D} {whole rest : List UInt8}
    (h : WholeText A n whole) (hrest : DigitsEnd rest) :
    numberWhole A (whole ++ rest) = .ok (n, rest) := by
  cases h with
  | zero =>
      obtain ⟨c, tail, rfl, hc⟩ := hrest
      have hnot : ¬ (49 ≤ c ∧ c ≤ 57) := by
        rintro ⟨hlow, hhigh⟩
        rw [isDigit_of_le hlow hhigh] at hc
        exact Bool.noConfusion hc
      simp [numberWhole, charAt, bind, Except.bind, hnot]
  | @digits c ds hlow hhigh hds =>
      have hne : c ≠ 48 := by
        rintro rfl
        exact absurd hlow (by decide)
      have hloop := digitLoop_digits A.digit (allDigits_cons (isDigit_of_le hlow hhigh) hds) hrest
        A.zero 0
      simp only [List.cons_append] at hloop
      simp [numberWhole, charAt, bind, Except.bind, hne, hlow, hhigh, hloop]

theorem numberFraction_text (A : Doubles D) (n : D) {ds fraction rest : List UInt8}
    (h : FractionText ds fraction) {c : UInt8} {tail : List UInt8} (hrest : rest = c :: tail)
    (hc : isDigit c = false) (hpoint : c ≠ 46) :
    numberFraction A n (fraction ++ rest) = .ok (digitFold A.digit n ds, ds.length, rest) := by
  subst hrest
  cases h with
  | none => simp [numberFraction, charAt, bind, Except.bind, hpoint, digitFold]
  | digits hne hds =>
      obtain ⟨d, ds, rfl⟩ := List.exists_cons_of_ne_nil hne
      have hd := hds d List.mem_cons_self
      have hloop := digitLoop_digits A.digit hds ⟨c, tail, rfl, hc⟩ n 0
      simp only [List.cons_append] at hloop
      simp [numberFraction, charAt, bind, Except.bind, hd, hloop]

/-- **The loop over the exponent takes all its digits.** -/
theorem subscaleLoop_digits {ds rest : List UInt8} (hds : AllDigits ds) (hrest : DigitsEnd rest)
    (n : ℕ) (hfits : ds.foldl (fun n c => 10 * n + (c.toNat - 48)) n < 2 ^ 31) :
    subscaleLoop n (ds ++ rest) =
      .ok (ds.foldl (fun n c => 10 * n + (c.toNat - 48)) n, rest) := by
  induction ds generalizing n with
  | nil =>
      obtain ⟨c, tail, rfl, hc⟩ := hrest
      simp [subscaleLoop, hc]
  | cons c ds ih =>
      rw [List.foldl_cons] at hfits ⊢
      have hle := le_foldl_decimal ds (10 * n + (c.toNat - 48))
      have hstep : n * 10 + (c.toNat - 48) < 2 ^ 31 := by omega
      have htail := ih (fun d hd => hds d (List.mem_cons_of_mem _ hd)) _ hfits
      rw [List.cons_append, subscaleLoop, if_pos (hds c List.mem_cons_self), if_pos hstep,
        Nat.mul_comm n, htail]

theorem numberExponent_text {e : ℤ} {exponent rest : List UInt8} (h : ExponentText e exponent)
    (hrest : Ends rest) : numberExponent (exponent ++ rest) = .ok (e, rest) := by
  have hloop : ∀ {ds : List UInt8}, ExponentDigits ds →
      subscaleLoop 0 (ds ++ rest) = .ok (decimal ds, rest) := by
    intro ds hds
    exact subscaleLoop_digits hds.digits hrest.digitsEnd 0 hds.fits
  cases h with
  | none =>
      obtain ⟨c, tail, rfl, -, -, he, hE⟩ := hrest
      simp [numberExponent, charAt, bind, Except.bind, he, hE]
  | @plain e ds he hds =>
      obtain ⟨d, ds, rfl⟩ := List.exists_cons_of_ne_nil hds.ne_nil
      have hdigit := isDigit_iff.1 (hds.digits d List.mem_cons_self)
      have hplus : d ≠ 43 := by
        rintro rfl
        simp at hdigit
      have hminus : d ≠ 45 := by
        rintro rfl
        simp at hdigit
      have hrun := hloop hds
      simp only [List.cons_append] at hrun
      simp [numberExponent, exponentSign, charAt, bind, Except.bind, he, hplus, hminus, hrun]
  | plus he hds =>
      simp [numberExponent, exponentSign, charAt, bind, Except.bind, he, hloop hds]
  | minus he hds =>
      simp [numberExponent, exponentSign, charAt, bind, Except.bind, he, hloop hds]

/-- What stands behind a number, its exponent in front, has no digit or point in front. -/
theorem ExponentText.head {e : ℤ} {exponent rest : List UInt8} (h : ExponentText e exponent)
    (hrest : Ends rest) :
    ∃ c tail, exponent ++ rest = c :: tail ∧ isDigit c = false ∧ c ≠ 46 := by
  have hletter : ∀ {e : UInt8}, e = 101 ∨ e = 69 → isDigit e = false ∧ e ≠ 46 := by
    rintro e (rfl | rfl) <;> decide
  cases h with
  | none =>
      obtain ⟨c, tail, rfl, hc, hpoint, -⟩ := hrest
      exact ⟨c, tail, rfl, hc, hpoint⟩
  | plain he => exact ⟨_, _, rfl, hletter he⟩
  | plus he => exact ⟨_, _, rfl, hletter he⟩
  | minus he => exact ⟨_, _, rfl, hletter he⟩

/-- The number is at least one digit long. -/
theorem WholeText.head {A : Doubles D} {n : D} {whole : List UInt8} (h : WholeText A n whole) :
    ∃ c tail, whole = c :: tail ∧ isDigit c = true := by
  cases h with
  | zero => exact ⟨48, [], rfl, by decide⟩
  | digits hlow hhigh => exact ⟨_, _, rfl, isDigit_of_le hlow hhigh⟩

/-- **`parse_number` reads a number of the grammar.** -/
theorem parseNumber_text {A : Doubles D} {d : D} {text rest : List UInt8}
    (h : NumberText A d text) (item : JsonItem D) (hrest : Ends rest) :
    parseNumber A item (text ++ rest) = .ok (item.setNumber A d, rest) := by
  obtain ⟨hwhole, hfraction, hexponent⟩ := h
  rename_i sign n e whole ds fraction exponent
  obtain ⟨c, tail, heq, hc, hpoint⟩ := hexponent.head hrest
  have hbehind : DigitsEnd (fraction ++ (exponent ++ rest)) := by
    cases hfraction with
    | none => exact ⟨c, tail, heq, hc⟩
    | digits => exact ⟨46, _, rfl, by decide⟩
  have hsign : numberSign ((if sign then [45] else []) ++
      (whole ++ (fraction ++ (exponent ++ rest)))) =
      .ok (sign, whole ++ (fraction ++ (exponent ++ rest))) := by
    cases sign with
    | true => rfl
    | false =>
        obtain ⟨w, tail, rfl, hw⟩ := hwhole.head
        have hne : w ≠ 45 := by
          rintro rfl
          exact absurd hw (by decide)
        simp [numberSign, charAt, bind, Except.bind, hne]
  have hfrac := numberFraction_text A n hfraction heq hc hpoint
  simp only [List.append_assoc, parseNumber, bind, Except.bind, hsign,
    numberWhole_text hwhole hbehind, hfrac, numberExponent_text hexponent hrest]

/-! ### Reading a value -/

/-- **A parser has read its text**: it goes on behind it with an item as it is meant to be, unless
a call of `malloc` has failed on the way. -/
def ReadAs {β : Type} (mem : ℕ → Bool) (heap : JsonHeap)
    (run : Except JsonFault (β × Option (List UInt8) × JsonHeap)) (rest : List UInt8)
    (good : β → Prop) : Prop :=
  ∃ item parsed heap', run = .ok (item, parsed, heap') ∧ heap ≤ heap' ∧
    ((parsed = none ∧ MallocFailed mem heap heap') ∨ (parsed = some rest ∧ good item))

/-- **A parser reads a kind of texts** of less than `n` bytes into items of a kind. -/
def ReadsBelow {α : Type} (mem : ℕ → Bool) (n : ℕ) (kind : JsonItem D → Prop)
    (one : ItemParser D) (P : α → List UInt8 → Prop) (R : α → JsonItem D → JsonItem D → Prop) :
    Prop :=
  ∀ (a : α) (text rest : List UInt8) (item : JsonItem D) (heap : JsonHeap), text.length < n →
    P a text → kind item → Ends rest →
    ReadAs mem heap (one item (text ++ rest) heap) rest (R a item)

theorem skip_blank {ws : List UInt8} (hws : Blank ws) {c : UInt8} (hc : c = 0 ∨ 32 < c)
    (tail : List UInt8) : skip (ws ++ c :: tail) = .ok (c :: tail) := by
  induction ws with
  | nil =>
      have hstop : ¬ (c ≠ 0 ∧ c ≤ 32) := by
        rintro ⟨hne, hle⟩
        rcases hc with rfl | hlt
        · exact hne rfl
        · exact absurd (UInt8.lt_of_le_of_lt hle hlt) (UInt8.lt_irrefl _)
      rw [List.nil_append, skip, if_neg hstop]
  | cons b ws ih =>
      rw [List.cons_append, skip, if_pos (hws b List.mem_cons_self)]
      exact ih fun c hc => hws c (List.mem_cons_of_mem _ hc)

/-- Behind a number stand blanks and something that ends it. -/
theorem ends_blank {ws : List UInt8} (hws : Blank ws) {rest : List UInt8} (hrest : Ends rest) :
    Ends (ws ++ rest) := by
  cases ws with
  | nil => exact hrest
  | cons c ws =>
      have hle : c ≤ 32 := (hws c List.mem_cons_self).2
      have hlt : c.toNat ≤ 32 := hle
      refine ⟨c, ws ++ rest, rfl, ?_, ?_, ?_, ?_⟩
      · simp only [isDigit, decide_eq_false_iff_not, not_and]
        intro hlow
        have hlow' : 48 ≤ c.toNat := hlow
        omega
      all_goals
        rintro rfl
        simp at hlt

theorem ends_cons {c : UInt8} (tail : List UInt8)
    (hc : isDigit c = false ∧ c ≠ 46 ∧ c ≠ 101 ∧ c ≠ 69) : Ends (c :: tail) :=
  ⟨c, tail, rfl, hc⟩

/-- A text begins with a character that is no blank and closes nothing. -/
def Begins (text : List UInt8) : Prop :=
  ∃ c tail, text = c :: tail ∧ 32 < c ∧ c ≠ 93 ∧ c ≠ 125

theorem Begins.append {text : List UInt8} (h : Begins text) (rest : List UInt8) :
    Begins (text ++ rest) := by
  obtain ⟨c, tail, rfl, hc⟩ := h
  exact ⟨c, tail ++ rest, rfl, hc⟩

theorem Begins.skip {text ws : List UInt8} (h : Begins text) (hws : Blank ws) :
    skip (ws ++ text) = .ok text := by
  obtain ⟨c, tail, rfl, hc, -⟩ := h
  exact skip_blank hws (Or.inr hc) tail

theorem blank_nil : Blank [] := by simp [Blank]

theorem blank_space : Blank [32] := by simp [Blank]

theorem Begins.skip_self {text : List UInt8} (h : Begins text) : Wsn.skip text = .ok text :=
  h.skip blank_nil

theorem begins_digit {c : UInt8} (hc : isDigit c = true) (tail : List UInt8) :
    Begins (c :: tail) := by
  have hrange := isDigit_iff.1 hc
  refine ⟨c, tail, rfl, ?_, ?_, ?_⟩
  · show 32 < c.toNat
    omega
  all_goals
    rintro rfl
    simp at hrange

theorem NumberText.begins {A : Doubles D} {d : D} {text : List UInt8} (h : NumberText A d text) :
    ∃ c tail, text = c :: tail ∧ (c = 45 ∨ isDigit c = true) := by
  obtain ⟨hwhole, -, -⟩ := h
  rename_i sign n e whole ds fraction exponent
  cases sign with
  | true => exact ⟨45, _, rfl, Or.inl rfl⟩
  | false =>
      obtain ⟨c, tail, rfl, hc⟩ := hwhole.head
      exact ⟨c, _, rfl, Or.inr hc⟩

theorem ValueText.begins {A : Doubles D} {v : Json D} {text : List UInt8}
    (h : ValueText A v text) : Begins text := by
  cases h with
  | null => exact ⟨110, _, rfl, by decide⟩
  | false => exact ⟨102, _, rfl, by decide⟩
  | true => exact ⟨116, _, rfl, by decide⟩
  | number hnumber =>
      obtain ⟨c, tail, rfl, hc⟩ := hnumber.begins
      rcases hc with rfl | hc
      · exact ⟨45, tail, rfl, by decide⟩
      · exact begins_digit hc tail
  | string => exact ⟨quote, _, rfl, by decide⟩
  | emptyArray => exact ⟨91, _, rfl, by decide⟩
  | array => exact ⟨91, _, rfl, by decide⟩
  | emptyObject => exact ⟨123, _, rfl, by decide⟩
  | object => exact ⟨123, _, rfl, by decide⟩

theorem MemberText.begins {P : Json D → List UInt8 → Prop} {member : CText × Json D}
    {text : List UInt8} (h : MemberText P member text) : Begins text := by
  cases h with
  | mk => exact ⟨quote, _, rfl, by decide⟩

/-- `]` or `}`. -/
def IsClosing (c : UInt8) : Prop := c = 93 ∨ c = 125

theorem IsClosing.spec {c : UInt8} (h : IsClosing c) :
    32 < c ∧ c ≠ 44 ∧ isDigit c = false ∧ c ≠ 46 ∧ c ≠ 101 ∧ c ≠ 69 := by
  rcases h with rfl | rfl <;> decide

section Sequence

variable {α : Type} {P : α → List UInt8 → Prop}

theorem SequenceText.begins {as : List α} {text : List UInt8}
    (hP : ∀ {a text}, P a text → Begins text) (h : SequenceText P as text) : Begins text := by
  cases h with
  | last ha => exact (hP ha).append _
  | more ha => exact (hP ha).append _

theorem Begins.pos {text : List UInt8} (h : Begins text) : 0 < text.length := by
  obtain ⟨c, tail, rfl, -⟩ := h
  exact Nat.succ_pos _

/-- There are no more elements than bytes. -/
theorem SequenceText.length_le {as : List α} {text : List UInt8}
    (hP : ∀ {a text}, P a text → Begins text) (h : SequenceText P as text) :
    as.length ≤ text.length := by
  induction h with
  | last ha =>
      have hpos := (hP ha).pos
      simp only [List.length_append, List.length_singleton]
      omega
  | more ha _ _ _ ih =>
      simp only [List.length_append, List.length_cons]
      omega

/-- A child that was read, whatever item of the kind it was read into. -/
def IsRead (kind : JsonItem D → Prop) (R : α → JsonItem D → JsonItem D → Prop) (a : α)
    (child : JsonItem D) : Prop :=
  ∃ item, kind item ∧ R a item child

/-- Where the loop begins does not matter as far as blanks are concerned. -/
theorem parseChain_skip (A : Doubles D) (mem : ℕ → Bool) (one : ItemParser D) (closing : UInt8)
    (turns : ℕ) (child : JsonItem D) {ptr ptr' : List UInt8} (h : skip ptr = skip ptr')
    (heap : JsonHeap) :
    parseChain A mem one closing turns child ptr heap =
      parseChain A mem one closing turns child ptr' heap := by
  cases turns with
  | zero => rfl
  | succ turns => simp only [parseChain, h]

/-- **The loop over the children reads a sequence.**  By induction on the sequence. -/
theorem parseChain_text (A : Doubles D) {mem : ℕ → Bool} {n : ℕ} {kind : JsonItem D → Prop}
    {one : ItemParser D} {R : α → JsonItem D → JsonItem D → Prop}
    (hone : ReadsBelow mem n kind one P R) (hkind : ∀ addr, kind (JsonItem.fresh A addr))
    (hP : ∀ {a text}, P a text → Begins text) {closing : UInt8} (hclosing : IsClosing closing)
    {as : List α} {text : List UInt8} (h : SequenceText P as text) :
    ∀ (turns addr : ℕ) (rest : List UInt8) (heap : JsonHeap), as.length ≤ turns →
      text.length < n →
      ReadAs mem heap
        (parseChain A mem one closing turns (.fresh A addr) (text ++ closing :: rest) heap) rest
        (List.Forall₂ (IsRead kind R) as) := by
  obtain ⟨hblank, hcomma, hends⟩ := hclosing.spec
  induction h with
  | @last a text after ha hafter =>
      intro turns addr rest heap hturns hlt
      obtain ⟨turns, rfl⟩ := Nat.exists_eq_succ_of_ne_zero (Nat.ne_zero_of_lt hturns)
      rw [List.length_append] at hlt
      obtain ⟨child, parsed, heap', hrun, hle, hread⟩ :=
        hone a text (after ++ closing :: rest) (.fresh A addr) heap (by omega) ha (hkind addr)
          (ends_blank hafter (ends_cons rest hends))
      have hskip := ((hP ha).append (after ++ closing :: rest)).skip_self
      rcases hread with ⟨rfl, hfail⟩ | ⟨rfl, hgood⟩
      · refine ⟨[child], none, heap', ?_, hle, Or.inl ⟨rfl, hfail⟩⟩
        simp only [List.append_assoc, parseChain, hskip, bind, Except.bind, hrun]
      · refine ⟨[child], some rest, heap', ?_, hle,
          Or.inr ⟨rfl, .cons ⟨_, hkind addr, hgood⟩ .nil⟩⟩
        simp only [List.append_assoc, parseChain, hskip, bind, Except.bind, hrun,
          skip_blank hafter (Or.inr hblank), charAt, hcomma, if_false, if_true, List.tail_cons]
  | @more a as text after before sequence ha hafter hbefore hsequence ih =>
      intro turns addr rest heap hturns hlt
      obtain ⟨turns, rfl⟩ := Nat.exists_eq_succ_of_ne_zero (Nat.ne_zero_of_lt hturns)
      simp only [List.length_append, List.length_cons] at hlt hturns
      obtain ⟨child, parsed, heap', hrun, hle, hread⟩ :=
        hone a text (after ++ 44 :: (before ++ (sequence ++ closing :: rest))) (.fresh A addr) heap
          (by omega) ha (hkind addr) (ends_blank hafter (ends_cons _ (by decide)))
      have hskip := ((hP ha).append
        (after ++ 44 :: (before ++ (sequence ++ closing :: rest)))).skip_self
      rcases hread with ⟨rfl, hfail⟩ | ⟨rfl, hgood⟩
      · refine ⟨[child], none, heap', ?_, hle, Or.inl ⟨rfl, hfail⟩⟩
        simp only [List.append_assoc, List.cons_append, parseChain, hskip, bind, Except.bind, hrun]
      · have hfront : ∀ tail, charAt (44 :: tail) = .ok 44 := fun _ => rfl
        cases hcall : cJsonNewItem A mem heap' with
        | mk node heap'' =>
            cases node with
            | none =>
                have hfail := cJsonNewItem_none hcall
                refine ⟨[child], none, heap'', ?_, hle.trans hfail.le,
                  Or.inl ⟨rfl, hfail.mono hle le_rfl⟩⟩
                simp only [List.append_assoc, List.cons_append, parseChain, hskip, bind,
                  Except.bind, hrun, skip_blank hafter (Or.inr (by decide : (32 : UInt8) < 44)),
                  hfront, if_true, hcall]
            | some newItem =>
                obtain ⟨⟨addr', rfl⟩, hnew⟩ := cJsonNewItem_some hcall
                obtain ⟨chain, parsed, heap₃, hchain, hle', hread⟩ :=
                  ih turns addr' rest heap'' (by omega) (by omega)
                have hbegins := (hsequence.begins hP).append (closing :: rest)
                -- the induction is about the sequence alone, and the blanks in front of it make no
                -- difference
                have hskipBefore := (hbegins.skip hbefore).trans hbegins.skip_self.symm
                rw [← parseChain_skip A mem one closing turns _ hskipBefore] at hchain
                have hloop : parseChain A mem one closing (turns + 1) (.fresh A addr)
                    (text ++ (after ++ 44 :: (before ++ (sequence ++ closing :: rest)))) heap =
                    .ok (child :: chain, parsed, heap₃) := by
                  simp only [parseChain, hskip, bind, Except.bind, hrun,
                    skip_blank hafter (Or.inr (by decide : (32 : UInt8) < 44)), hfront, if_true,
                    hcall, List.tail_cons, hchain]
                refine ⟨child :: chain, parsed, heap₃, ?_, hle.trans (hnew.trans hle'), ?_⟩
                · simpa only [List.append_assoc, List.cons_append] using hloop
                · rcases hread with ⟨hnone, hfail⟩ | ⟨rfl, hall⟩
                  · exact Or.inl ⟨hnone, hfail.mono (hle.trans hnew) le_rfl⟩
                  · exact Or.inr ⟨rfl, .cons ⟨_, hkind addr, hgood⟩ hall⟩

theorem parseContainer_empty (A : Doubles D) (mem : ℕ → Bool) (one : ItemParser D)
    (opening : UInt8) {closing : UInt8} (hclosing : IsClosing closing) (type : JsonType)
    {ws : List UInt8} (hws : Blank ws) (item : JsonItem D) (rest : List UInt8) (heap : JsonHeap) :
    parseContainer A mem one opening closing type item (opening :: (ws ++ closing :: rest)) heap =
      .ok ({ item with type := type }, some rest, heap) := by
  simp only [parseContainer, charAt, bind, Except.bind, ne_eq, not_true_eq_false, if_false,
    List.tail_cons, skip_blank hws (Or.inr hclosing.spec.1), if_true]

/-- **A container is read with all its children.** -/
theorem parseContainer_text (A : Doubles D) {mem : ℕ → Bool} {n : ℕ} {kind : JsonItem D → Prop}
    {one : ItemParser D} {R : α → JsonItem D → JsonItem D → Prop}
    (hone : ReadsBelow mem n kind one P R) (hkind : ∀ addr, kind (JsonItem.fresh A addr))
    (hP : ∀ {a text}, P a text → Begins text) (opening : UInt8) {closing : UInt8}
    (hclosing : IsClosing closing) (type : JsonType) {as : List α} {ws text : List UInt8}
    (hws : Blank ws) (h : SequenceText P as text) (item : JsonItem D) (rest : List UInt8)
    (heap : JsonHeap) (hlt : text.length < n) :
    ReadAs mem heap
      (parseContainer A mem one opening closing type item
        (opening :: (ws ++ (text ++ closing :: rest))) heap)
      rest fun item' => ∃ chain, item' = { item with type := type, child := chain } ∧
        List.Forall₂ (IsRead kind R) as chain := by
  have hfront := h.begins hP
  have hskip := (hfront.append (closing :: rest)).skip hws
  obtain ⟨c, tail, heq, -, hbracket, hbrace⟩ := hfront
  have hchar : charAt (text ++ closing :: rest) = .ok c := by
    rw [heq]
    rfl
  have hne : c ≠ closing := by
    rcases hclosing with rfl | rfl
    · exact hbracket
    · exact hbrace
  have hopen : charAt (opening :: (ws ++ (text ++ closing :: rest))) = .ok opening := rfl
  cases hcall : cJsonNewItem A mem heap with
  | mk node heap' =>
      cases node with
      | none =>
          have hfail := cJsonNewItem_none hcall
          refine ⟨{ item with type := type }, none, heap', ?_, hfail.le, Or.inl ⟨rfl, hfail⟩⟩
          simp only [parseContainer, hopen, bind, Except.bind, ne_eq, not_true_eq_false,
            if_false, List.tail_cons, hskip, hchar, hne, hcall]
      | some newItem =>
          obtain ⟨⟨addr, rfl⟩, hnew⟩ := cJsonNewItem_some hcall
          have hturns : as.length ≤ (text ++ closing :: rest).length := by
            rw [List.length_append]
            exact (h.length_le hP).trans (Nat.le_add_right _ _)
          obtain ⟨chain, parsed, heap'', hrun, hle, hread⟩ :=
            parseChain_text A hone hkind hP hclosing h _ addr rest heap' hturns hlt
          refine ⟨{ item with type := type, child := chain }, parsed, heap'', ?_, hnew.trans hle,
            ?_⟩
          · simp only [parseContainer, hopen, bind, Except.bind, ne_eq, not_true_eq_false,
              if_false, List.tail_cons, hskip, hchar, hne, hcall, hrun]
          · rcases hread with ⟨hnone, hfail⟩ | ⟨rfl, hall⟩
            · exact Or.inl ⟨hnone, hfail.mono hnew le_rfl⟩
            · exact Or.inr ⟨rfl, chain, rfl, hall⟩

end Sequence

/-- An item was read as a value, and has kept its name. -/
def ReadValue (v : Json D) (item item' : JsonItem D) : Prop :=
  (item'.value = some v ∧ item'.Bare) ∧ item'.string = item.string

/-- An item was read as a member. -/
def ReadMember (member : CText × Json D) (_ item' : JsonItem D) : Prop :=
  IsMember member item' ∧ item'.Bare

/-- A literal is read into the item, unless a call of `malloc` fails. -/
theorem parseString_readAs {mem : ℕ → Bool} {lit : List UInt8} {text : CText}
    (h : StandsFor lit text) (item : JsonItem D) (rest : List UInt8) (heap : JsonHeap) :
    ReadAs mem heap (parseString mem item (quote :: (lit ++ quote :: rest)) heap) rest
      fun item' => ∃ addr, item' = item.setString addr text := by
  rw [ReadAs, parseString_standsFor mem item h rest heap]
  cases hcall : cJsonMalloc mem heap with
  | mk addr heap' =>
      cases addr with
      | none =>
          have hfail := cJsonMalloc_none hcall
          exact ⟨item, none, heap', rfl, hfail.le, Or.inl ⟨rfl, hfail⟩⟩
      | some addr =>
          exact ⟨item.setString addr text, some rest, heap', rfl, cJsonMalloc_some hcall,
            Or.inr ⟨rfl, addr, rfl⟩⟩

theorem parseMember_text {A : Doubles D} {mem : ℕ → Bool} {n : ℕ} {one : ItemParser D}
    (hone : ReadsBelow mem n JsonItem.Fresh one (ValueText A) ReadValue) :
    ReadsBelow mem n JsonItem.Fresh (parseMember mem one) (MemberText (ValueText A))
      ReadMember := by
  intro member text rest item heap hlt htext hitem hrest
  cases htext with
  | @mk name lit after before text v hlit hafter hbefore hvalue =>
      simp only [List.length_cons, List.length_append] at hlt
      obtain ⟨child, parsed, heap', hrun, hle, hread⟩ := @parseString_readAs _ mem _ _ hlit item
        (after ++ 58 :: (before ++ (text ++ rest))) heap
      have hcolon : ∀ tail, charAt (58 :: tail) = .ok 58 := fun _ => rfl
      have hskip := (hvalue.begins.append rest).skip hbefore
      rcases hread with ⟨rfl, hfail⟩ | ⟨rfl, addr, rfl⟩
      · refine ⟨child, none, heap', ?_, hle, Or.inl ⟨rfl, hfail⟩⟩
        simp only [List.cons_append, List.append_assoc, parseMember, hrun, bind, Except.bind]
      · obtain ⟨child, parsed, heap'', hrun', hle', hread'⟩ :=
          hone v text rest (item.setString addr name).nameFromString heap' (by omega) hvalue
            ⟨rfl, hitem.2⟩ hrest
        refine ⟨child, parsed, heap'', ?_, hle.trans hle', ?_⟩
        · simp only [List.cons_append, List.append_assoc, parseMember, hrun, bind, Except.bind,
            skip_blank hafter (Or.inr (by decide : (32 : UInt8) < 58)), hcolon, ne_eq,
            not_true_eq_false, if_false, List.tail_cons, hskip, hrun']
        · rcases hread' with ⟨hnone, hfail⟩ | ⟨rfl, hval, hname⟩
          · exact Or.inl ⟨hnone, hfail.mono hle le_rfl⟩
          · refine Or.inr ⟨rfl, ⟨⟨_, hname, ?_⟩, hval.1⟩, hval.2⟩
            exact textOf_eq_self hlit.nonzero

theorem startsWith_ne {c d : UInt8} (h : c ≠ d) (word value : List UInt8) :
    startsWith (c :: word) (d :: value) = .ok false := by
  rw [startsWith, if_neg h]

/-- The words of the grammar. -/
theorem literal_words : literal "null" = [110, 117, 108, 108] ∧
    literal "false" = [102, 97, 108, 115, 101] ∧ literal "true" = [116, 114, 117, 101] := by
  decide

/-- Behind another character `parse_value` looks at that character. -/
theorem parseValue_char (A : Doubles D) (mem : ℕ → Bool) (depth : ℕ) (item : JsonItem D)
    {c : UInt8} (hn : c ≠ 110) (hf : c ≠ 102) (ht : c ≠ 116) (tail : List UInt8)
    (heap : JsonHeap) :
    parseValue A mem (depth + 1) item (c :: tail) heap =
      if c = quote then parseString mem item (c :: tail) heap
      else if c = 45 ∨ isDigit c = true then do
        let (item, num) ← parseNumber A item (c :: tail)
        .ok (item, some num, heap)
      else if c = 91 then parseArray A mem (parseValue A mem depth) item (c :: tail) heap
      else if c = 123 then parseObject A mem (parseValue A mem depth) item (c :: tail) heap
      else .ok (item, none, heap) := by
  obtain ⟨hnull, hfalse, htrue⟩ := literal_words
  simp only [parseValue, hnull, hfalse, htrue, startsWith_ne (Ne.symm hn),
    startsWith_ne (Ne.symm hf), startsWith_ne (Ne.symm ht), bind, Except.bind, charAt,
    Bool.false_eq_true, if_false]

theorem parseValue_word (A : Doubles D) (mem : ℕ → Bool) (depth : ℕ) (item : JsonItem D)
    (rest : List UInt8) (heap : JsonHeap) :
    parseValue A mem (depth + 1) item (literal "null" ++ rest) heap =
        .ok ({ item with type := .null }, some rest, heap) ∧
      parseValue A mem (depth + 1) item (literal "false" ++ rest) heap =
        .ok ({ item with type := .false }, some rest, heap) ∧
      parseValue A mem (depth + 1) item (literal "true" ++ rest) heap =
        .ok ({ item with type := .true, valueint := 1 }, some rest, heap) := by
  obtain ⟨hnull, hfalse, htrue⟩ := literal_words
  simp only [hnull, hfalse, htrue]
  exact ⟨rfl, rfl, rfl⟩

theorem exists_of_forall₂ {α β : Type} {R : α → β → Prop} {as : List α} {bs : List β}
    (h : List.Forall₂ R as bs) {b : β} (hb : b ∈ bs) : ∃ a, R a b := by
  induction h with
  | nil => cases hb
  | cons hab _ ih =>
      rcases List.mem_cons.1 hb with rfl | hb
      · exact ⟨_, hab⟩
      · exact ih hb

/-- **The elements that were read** make an array. -/
theorem forall₂_elements {vs : List (Json D)} {chain : List (JsonItem D)} {item : JsonItem D}
    (h : List.Forall₂ (IsRead JsonItem.Unnamed ReadValue) vs chain) (htype : item.type = .array)
    (hchild : item.child = chain) : item.value = some (.array vs) ∧ item.Bare := by
  have hvalues := chainValues_eq (h.imp fun _ _ ⟨_, _, hread⟩ => hread.1.1)
  refine ⟨?_, JsonItem.bare_iff.2 ?_⟩
  · cases item
    cases htype
    cases hchild
    rw [JsonItem.value, hvalues]
    rfl
  · rw [hchild]
    constructor
    · intro _ c hc
      obtain ⟨v, fresh, hfresh, hread⟩ := exists_of_forall₂ h hc
      exact hread.2.trans hfresh.2
    · intro c hc
      obtain ⟨v, fresh, -, hread⟩ := exists_of_forall₂ h hc
      exact hread.1.2

/-- **The members that were read** make an object. -/
theorem forall₂_members {members : List (CText × Json D)} {chain : List (JsonItem D)}
    {item : JsonItem D} (h : List.Forall₂ (IsRead JsonItem.Fresh ReadMember) members chain)
    (htype : item.type = .object) (hchild : item.child = chain) :
    item.value = some (.object members) ∧ item.Bare := by
  have hvalues := chainMembers_eq (h.imp fun _ _ ⟨_, _, hread⟩ => hread.1)
  refine ⟨?_, JsonItem.bare_iff.2 ?_⟩
  · cases item
    cases htype
    cases hchild
    rw [JsonItem.value, hvalues]
    rfl
  · rw [hchild, htype]
    refine ⟨fun hne => JsonType.noConfusion hne, fun c hc => ?_⟩
    obtain ⟨member, fresh, -, hread⟩ := exists_of_forall₂ h hc
    exact hread.2

/-- What was read is as it is meant to be, in other words. -/
theorem ReadAs.imp {β : Type} {mem : ℕ → Bool} {heap : JsonHeap}
    {run : Except JsonFault (β × Option (List UInt8) × JsonHeap)} {rest : List UInt8}
    {good good' : β → Prop} (h : ReadAs mem heap run rest good) (himp : ∀ b, good b → good' b) :
    ReadAs mem heap run rest good' := by
  obtain ⟨item, parsed, heap', hrun, hle, hread⟩ := h
  exact ⟨item, parsed, heap', hrun, hle, hread.imp_right fun hgood => ⟨hgood.1, himp _ hgood.2⟩⟩

/-- A parser that reads into any fresh item reads into one without a name. -/
theorem ReadsBelow.unnamed {α : Type} {mem : ℕ → Bool} {n : ℕ} {one : ItemParser D}
    {P : α → List UInt8 → Prop} {R : α → JsonItem D → JsonItem D → Prop}
    (h : ReadsBelow mem n JsonItem.Fresh one P R) : ReadsBelow mem n JsonItem.Unnamed one P R :=
  fun a text rest item heap hlt htext hitem => h a text rest item heap hlt htext hitem.1

/-- **`parse_value` reads every text of the grammar as its value.**  By induction on the depth,
which is above the length of the text. -/
theorem parseValue_text (A : Doubles D) (mem : ℕ → Bool) : ∀ depth,
    ReadsBelow mem depth JsonItem.Fresh (parseValue A mem depth) (ValueText A) ReadValue := by
  intro depth
  induction depth with
  | zero =>
      intro v text rest item heap hlt
      omega
  | succ depth ih =>
      intro v text rest item heap hlt htext hitem hrest
      obtain ⟨hnull, hfalse, htrue⟩ := parseValue_word A mem depth item rest heap
      cases htext with
      | null =>
          exact ⟨_, _, heap, hnull, le_rfl,
            Or.inr ⟨rfl, ⟨by rw [JsonItem.value], .of_childless hitem.2⟩, rfl⟩⟩
      | false =>
          exact ⟨_, _, heap, hfalse, le_rfl,
            Or.inr ⟨rfl, ⟨by rw [JsonItem.value], .of_childless hitem.2⟩, rfl⟩⟩
      | true =>
          exact ⟨_, _, heap, htrue, le_rfl,
            Or.inr ⟨rfl, ⟨by rw [JsonItem.value], .of_childless hitem.2⟩, rfl⟩⟩
      | @number d text hnumber =>
          have hparse := parseNumber_text hnumber item hrest
          obtain ⟨c, tail, rfl, hc⟩ := hnumber.begins
          have hletter : c ≠ 110 ∧ c ≠ 102 ∧ c ≠ 116 ∧ c ≠ quote := by
            refine ⟨?_, ?_, ?_, ?_⟩ <;> rintro rfl <;> exact absurd hc (by decide)
          refine ⟨item.setNumber A d, some rest, heap, ?_, le_rfl,
            Or.inr ⟨rfl, ⟨?_, .of_childless hitem.2⟩, rfl⟩⟩
          · rw [List.cons_append, parseValue_char A mem depth item hletter.1 hletter.2.1
              hletter.2.2.1, if_neg hletter.2.2.2, if_pos hc, ← List.cons_append, hparse]
            rfl
          · rw [JsonItem.setNumber, JsonItem.value]
      | @string text lit hlit =>
          rw [List.cons_append, List.append_assoc, parseValue_char A mem depth item (by decide)
            (by decide) (by decide), if_pos rfl]
          refine (parseString_readAs hlit item rest heap).imp ?_
          rintro _ ⟨addr, rfl⟩
          refine ⟨⟨?_, .of_childless hitem.2⟩, rfl⟩
          rw [JsonItem.setString, JsonItem.value, Option.map_some, TextBlock.text_of,
            textOf_eq_self hlit.nonzero]
      | @emptyArray ws hws =>
          rw [List.cons_append, List.append_assoc, parseValue_char A mem depth item (by decide)
            (by decide) (by decide), if_neg (by decide), if_neg (by decide), if_pos rfl]
          refine ⟨_, _, heap, parseContainer_empty A mem _ 91 (Or.inl rfl) .array hws item rest
            heap, le_rfl, Or.inr ⟨rfl, ⟨?_, .of_childless hitem.2⟩, rfl⟩⟩
          rw [JsonItem.value, hitem.2, chainValues]
          rfl
      | @array vs ws text hws hsequence =>
          simp only [List.length_cons, List.length_append] at hlt
          rw [List.cons_append, List.append_assoc, List.append_assoc,
            parseValue_char A mem depth item (by decide) (by decide) (by decide),
            if_neg (by decide), if_neg (by decide), if_pos rfl]
          refine (parseContainer_text A ih.unnamed (unnamed_fresh A) ValueText.begins 91
            (Or.inl rfl) .array hws hsequence item rest heap (by omega)).imp ?_
          rintro _ ⟨chain, rfl, hall⟩
          exact ⟨forall₂_elements hall rfl rfl, rfl⟩
      | @emptyObject ws hws =>
          rw [List.cons_append, List.append_assoc, parseValue_char A mem depth item (by decide)
            (by decide) (by decide), if_neg (by decide), if_neg (by decide), if_neg (by decide),
            if_pos rfl]
          refine ⟨_, _, heap, parseContainer_empty A mem _ 123 (Or.inr rfl) .object hws item rest
            heap, le_rfl, Or.inr ⟨rfl, ⟨?_, .of_childless hitem.2⟩, rfl⟩⟩
          rw [JsonItem.value, hitem.2, chainMembers]
          rfl
      | @object members ws text hws hsequence =>
          simp only [List.length_cons, List.length_append] at hlt
          rw [List.cons_append, List.append_assoc, List.append_assoc,
            parseValue_char A mem depth item (by decide) (by decide) (by decide),
            if_neg (by decide), if_neg (by decide), if_neg (by decide), if_pos rfl]
          refine (parseContainer_text A (parseMember_text ih)
            (fun addr => (unnamed_fresh A addr).1) MemberText.begins 123 (Or.inr rfl) .object hws
            hsequence item rest heap (by omega)).imp ?_
          rintro _ ⟨chain, rfl, hall⟩
          exact ⟨forall₂_members hall rfl rfl, rfl⟩

/-- **`cJSON_ParseWithOpts` reads a text of the grammar**, with blanks around it. -/
theorem cJsonParseWithOpts_text {A : Doubles D} (mem : ℕ → Bool) {v : Json D}
    {before text after : List UInt8} (htext : ValueText A v text) (hbefore : Blank before)
    (hafter : Blank after) (beyond : List UInt8) (requireNullTerminated : Bool)
    (heap : JsonHeap) :
    ∃ out heap', cJsonParseWithOpts A mem (some (before ++ (text ++ (after ++ 0 :: beyond))))
        requireNullTerminated heap = .ok (out, heap') ∧
      (out = none → MallocFailed mem heap heap') ∧
      ∀ c rest, out = some (c, rest) → c.value = some v ∧ c.Bare := by
  have hends : Ends (after ++ 0 :: beyond) := ends_blank hafter (ends_cons _ (by decide))
  have hskip := (htext.begins.append (after ++ 0 :: beyond)).skip hbefore
  unfold cJsonParseWithOpts
  cases hcall : cJsonNewItem A mem heap with
  | mk node heap' =>
      cases node with
      | none => exact ⟨none, heap', rfl, fun _ => cJsonNewItem_none hcall, by simp⟩
      | some c =>
          obtain ⟨⟨addr, rfl⟩, hnew⟩ := cJsonNewItem_some hcall
          have hlt : text.length < (text ++ (after ++ 0 :: beyond)).length + 1 := by
            rw [List.length_append]
            omega
          obtain ⟨c, parsed, heap'', hrun, -, hread⟩ :=
            parseValue_text A mem _ v text (after ++ 0 :: beyond) (.fresh A addr) heap' hlt htext
              (unnamed_fresh A addr).1 hends
          simp only [hskip, bind, Except.bind, hrun]
          rcases hread with ⟨rfl, hfail⟩ | ⟨rfl, hvalue, -⟩
          · have hdeleted : heap'' ≤ cJsonDelete [c] heap'' := (asked_cJsonDelete [c] heap'').ge
            exact ⟨none, _, rfl, fun _ => hfail.mono hnew hdeleted, by simp⟩
          · cases requireNullTerminated with
            | false =>
                refine ⟨some (c, after ++ 0 :: beyond), heap'', rfl, by simp, ?_⟩
                rintro _ _ ⟨⟩
                exact hvalue
            | true =>
                have hend := skip_blank hafter (Or.inl rfl) beyond
                refine ⟨some (c, 0 :: beyond), heap'', ?_, by simp, ?_⟩
                · simp [hend, charAt]
                · rintro _ _ ⟨⟩
                  exact hvalue

theorem cJsonParseWithOpts_value {A : Doubles D} (mem : ℕ → Bool) {v : Json D}
    {before text after : List UInt8} (htext : ValueText A v text) (hbefore : Blank before)
    (hafter : Blank after) (beyond : List UInt8) (requireNullTerminated : Bool)
    (heap : JsonHeap) :
    ∃ out heap', cJsonParseWithOpts A mem (some (before ++ (text ++ (after ++ 0 :: beyond))))
        requireNullTerminated heap = .ok (out, heap') ∧
      (out = none → MallocFailed mem heap heap') ∧
      ∀ c rest, out = some (c, rest) → c.value = some v := by
  obtain ⟨out, heap', hrun, hnone, hread⟩ :=
    cJsonParseWithOpts_text mem htext hbefore hafter beyond requireNullTerminated heap
  exact ⟨out, heap', hrun, hnone, fun c rest hout => (hread c rest hout).1⟩

/-- An array with one string in it, which is an accented letter and written as an escape. -/
theorem valueText_accent :
    ValueText exactDoubles (.array [.string [195, 169]]) (literal "[\"\\u00E9\" ]") := by
  have hunit : SpellsUnit (literal "00E9") 'é'.toNat := by
    refine ⟨by decide, [0, 0, 14, 9], ?_, by decide⟩
    show (literal "00E9").map CScan.hexDigit? = _
    decide
  have hstands := StandsFor.char (by decide) (.unit hunit) .nil
  have hstring := @ValueText.string ℚ exactDoubles _ _ hstands
  have hlast := SequenceText.last hstring blank_space
  have harray := ValueText.array blank_nil hlast
  have htext : literal "[\"\\u00E9\" ]" = 91 :: ([] ++ ((quote :: (backslash :: letterU ::
      literal "00E9" ++ [] ++ [quote]) ++ [32]) ++ [93])) := by decide
  have hbytes : String.utf8EncodeChar 'é' ++ [] = [195, 169] := by decide
  rw [htext, ← hbytes]
  exact harray

end Wsn
