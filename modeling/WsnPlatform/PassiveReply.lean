/-
**Replies to `PASV`.**

A reply holds six numbers in parentheses, with commas between them.  The parser of the port reads
every such reply, and it gives up where a number does not fit its buffers.  About all other replies
it has nothing to say: it takes what looks like a reply for one, or it goes on behind the reply.

Main definitions:

* `SixNumbers` — the texts with six numbers of at most 255 in parentheses;
* `StaysInReply` — the parser reads nothing behind a text;
* `PortSound` — the parser accepts a text only if it has six numbers.

Main results:

* `parsePassivePort_roundTrip` — six numbers are read back;
* `staysInReply_iff` — the texts that the parser does not leave;
* `portSound_iff` — the texts of which it accepts nothing that is not there.
-/

import WsnPlatform.PassivePort

set_option relaxedAutoImplicit false
set_option autoImplicit false

namespace Wsn

open CScan

/-! ### Numbers in decimal -/

/-- The numbers of a reply have at most three digits. -/
theorem length_byteText_le (b : UInt8) : (decimalText b.toNat).length ≤ 3 := by
  have hb := b.toNat_lt
  exact length_decimalText_le (by norm_num) (by omega)

/-- `atoi` of a text of digits. -/
theorem atoi_digits {s : CText} (h : ∀ c ∈ s, isDigit c = true) : atoi s = decimal s := by
  cases s with
  | nil => rfl
  | cons c t =>
      rw [atoi_of_digit (h c List.mem_cons_self), List.takeWhile_eq_self_iff.2 h]

/-! ### Texts with separators -/

/-- Texts with a character between them. -/
def separated (sep : UInt8) (texts : List CText) : CText := [sep].intercalate texts

theorem separated_singleton (sep : UInt8) (text : CText) : separated sep [text] = text :=
  List.intercalate_singleton

theorem separated_cons_cons (sep : UInt8) (text text' : CText) (texts : List CText) :
    separated sep (text :: text' :: texts) = text ++ sep :: separated sep (text' :: texts) := by
  rw [separated, List.intercalate_cons_cons, List.append_assoc]
  rfl

theorem not_mem_digits {s : CText} (h : ∀ c ∈ s, isDigit c = true) {c : UInt8}
    (hc : isDigit c = false) : c ∉ s := by
  intro hmem
  rw [h c hmem] at hc
  cases hc

/-- **The address of texts of digits** has points where they have commas. -/
theorem dotted_separated {texts : List CText} (h : ∀ s ∈ texts, ∀ c ∈ s, isDigit c = true) :
    dotted (separated 44 texts) = separated 46 texts := by
  induction texts with
  | nil => rfl
  | cons text texts ih =>
      have htext := dotted_digits (h text List.mem_cons_self)
      have hrest := ih fun s hs => h s (List.mem_cons_of_mem text hs)
      cases texts with
      | nil => rw [separated_singleton, separated_singleton, htext]
      | cons text' texts =>
          rw [separated_cons_cons, separated_cons_cons, dotted_append, htext, dotted_cons_comma,
            hrest]

/-- There is one separator less than texts. -/
theorem count_separated {sep : UInt8} {texts : List CText} (h : ∀ s ∈ texts, sep ∉ s) :
    (separated sep texts).count sep = texts.length - 1 := by
  induction texts with
  | nil => rfl
  | cons text texts ih =>
      have htext := List.count_eq_zero_of_not_mem (h text List.mem_cons_self)
      have hrest := ih fun s hs => h s (List.mem_cons_of_mem text hs)
      cases texts with
      | nil => rw [separated_singleton, htext]; rfl
      | cons text' texts =>
          rw [separated_cons_cons, List.count_append, htext, List.count_cons_self, hrest]
          simp only [List.length_cons]
          omega

/-- The turns over a number that fits the empty buffer. -/
theorem portScan_digits {v : PortParse} (hstate : v.state = .portSection)
    (hempty : v.portBuffer = []) {s : CText} (h : ∀ c ∈ s, isDigit c = true)
    (hlen : s.length < portBufferSize) :
    portScan s v = .ok (some { v with portBuffer := s }) := by
  have hroom : v.portBuffer.length < portBufferSize := by
    rw [hempty]
    exact Nat.zero_lt_succ _
  rw [portScan_number hstate hroom (not_mem_digits h (by decide)) (not_mem_digits h (by decide)),
    digitsOf_digits h, hempty, List.nil_append, if_pos hlen]

/-! ### Six numbers -/

section SixTexts

variable {before : CText} (hbefore : 40 ∉ before) {address : List CText} {s₁ s₂ : CText}
  (hcount : address.length = 4) (haddress : ∀ s ∈ address, ∀ c ∈ s, isDigit c = true)
  (h₁ : ∀ c ∈ s₁, isDigit c = true) (h₂ : ∀ c ∈ s₂, isDigit c = true) (after : CText)

/-- A text with an address and two numbers in parentheses. -/
def sixText (before : CText) (address : List CText) (s₁ s₂ after : CText) : CText :=
  before ++ 40 :: (separated 44 address ++ 44 :: (s₁ ++ 44 :: (s₂ ++ 41 :: after)))

/-- The variables behind a text that fits the buffers. -/
def sixParsed (address : List CText) (s₁ s₂ : CText) : PortParse :=
  ⟨.parseEnd, separated 46 address, 4, [], some (decimal s₁), some (decimal s₂)⟩

include hbefore in
theorem behind_sixText :
    Behind (sixText before address s₁ s₂ after)
      (separated 44 address ++ 44 :: (s₁ ++ 44 :: (s₂ ++ 41 :: after))) :=
  ⟨before, hbefore, rfl⟩

include hcount haddress in
theorem count_address : (separated 44 address).count 44 = 3 := by
  rw [count_separated fun s hs => not_mem_digits (haddress s hs) (by decide), hcount]

include hbefore hcount haddress h₁ h₂ in
/-- **The turns over six texts of digits that fit the buffers.** -/
theorem portScan_sixText (hip : (separated 46 address).length < ipMaxLength)
    (hlen₁ : s₁.length < portBufferSize) (hlen₂ : s₂.length < portBufferSize) :
    portScan (sixText before address s₁ s₂ after) portStart =
      .ok (some (sixParsed address s₁ s₂)) := by
  have hdotted := dotted_separated haddress
  have hfirst := portScan_digits (v := portAddressed (separated 44 address)) rfl rfl h₁ hlen₁
  have hcomma := portStep_port_comma (v := { portAddressed (separated 44 address) with
    portBuffer := s₁ }) rfl hlen₁
  have hsecond := portScan_digits (v := { portAddressed (separated 44 address) with
    p1 := some (atoi s₁), portBuffer := [] }) rfl rfl h₂ hlen₂
  have hclose := portStep_port_close (v := { portAddressed (separated 44 address) with
    p1 := some (atoi s₁), portBuffer := s₂ }) rfl hlen₂
  rw [portScan_behind (behind_sixText hbefore after), portScan_cut (count_address hcount haddress),
    if_pos (by rwa [hdotted]), portScan_append_some hfirst, portScan_cons_some hcomma,
    portScan_append_some hsecond, portScan_cons_some hclose, portScan_parseEnd rfl, sixParsed,
    ← atoi_digits h₁, ← atoi_digits h₂, ← hdotted]
  rfl

include hbefore hcount haddress h₁ h₂ in
/-- **The parser on six texts of digits that fit the buffers**, when the port fits an `int`. -/
theorem parsePassivePort_sixText (hip : (separated 46 address).length < ipMaxLength)
    (hlen₁ : s₁.length < portBufferSize) (hlen₂ : s₂.length < portBufferSize)
    (hint : (decimal s₁ : ℤ) * 256 + decimal s₂ ≤ intMax) (memory : List UInt8) :
    parsePassivePort (sixText before address s₁ s₂ after ++ 0 :: memory) =
      .ok (some (separated 46 address, some ((decimal s₁ : ℤ) * 256 + decimal s₂))) := by
  have hloop := portLoop_of_parseEnd (portScan_sixText hbefore hcount haddress h₁ h₂ after hip hlen₁
    hlen₂) rfl memory
  have hstart : (⟨.parseStart, [], 0, [], none, none⟩ : PortParse) = portStart := rfl
  rw [parsePassivePort, hstart, hloop, ok_bind]
  simp only [passivePort, sixParsed, if_pos hint, ok_bind]

end SixTexts

/-- **Passive replies round-trip**: six numbers in parentheses are read back, behind any text
without a parenthesis and in front of any text. -/
theorem parsePassivePort_roundTrip (before after : CText) (hbefore : 40 ∉ before)
    (h₁ h₂ h₃ h₄ p₁ p₂ : UInt8) (memory : List UInt8) :
    parsePassivePort (before ++ 40 ::
        (separated 44 ([h₁, h₂, h₃, h₄, p₁, p₂].map fun b => decimalText b.toNat) ++
          41 :: (after ++ 0 :: memory))) =
      .ok (some (separated 46 ([h₁, h₂, h₃, h₄].map fun b => decimalText b.toNat),
        some (p₁.toNat * 256 + p₂.toNat))) := by
  have hdigits (b : UInt8) := isDigit_of_mem_decimalText b.toNat
  have hshort (b : UInt8) : (decimalText b.toNat).length < portBufferSize :=
    (length_byteText_le b).trans_lt (by decide)
  have haddress : ∀ s ∈ [h₁, h₂, h₃, h₄].map fun b => decimalText b.toNat,
      ∀ c ∈ s, isDigit c = true := by
    intro s hs
    obtain ⟨b, -, rfl⟩ := List.mem_map.1 hs
    exact hdigits b
  have hip : (separated 46 ([h₁, h₂, h₃, h₄].map fun b => decimalText b.toNat)).length <
      ipMaxLength := by
    have hlen₁ := length_byteText_le h₁
    have hlen₂ := length_byteText_le h₂
    have hlen₃ := length_byteText_le h₃
    have hlen₄ := length_byteText_le h₄
    simp only [List.map_cons, List.map_nil, separated_cons_cons, separated_singleton,
      List.length_append, List.length_cons, ipMaxLength]
    omega
  have hint : (decimal (decimalText p₁.toNat) : ℤ) * 256 + decimal (decimalText p₂.toNat) ≤
      intMax := by
    have hp₁ := p₁.toNat_lt
    have hp₂ := p₂.toNat_lt
    rw [decimal_decimalText, decimal_decimalText, intMax]
    omega
  have hparse := parsePassivePort_sixText hbefore rfl haddress (hdigits p₁) (hdigits p₂) after hip
    (hshort p₁) (hshort p₂) hint memory
  rw [decimal_decimalText, decimal_decimalText] at hparse
  rw [← hparse, sixText]
  simp only [List.map_cons, List.map_nil, separated_cons_cons, separated_singleton,
    List.append_assoc, List.cons_append]

/-- The reply of a server at 192.168.1.10 that waits at port 5001. -/
theorem parsePassivePort_roundTrip_5001 :
    40 ∉ literal "227 Entering Passive Mode " ∧
      parsePassivePort (literal "227 Entering Passive Mode (192,168,1,10,19,137).\r\n" ++ [0]) =
        .ok (some (literal "192.168.1.10", some 5001)) := by
  have hnumbers : separated 44 (([192, 168, 1, 10, 19, 137] : List UInt8).map fun b =>
      decimalText b.toNat) = literal "192,168,1,10,19,137" := by decide +kernel
  have haddress : separated 46 (([192, 168, 1, 10] : List UInt8).map fun b =>
      decimalText b.toNat) = literal "192.168.1.10" := by decide +kernel
  have hline : literal "227 Entering Passive Mode " ++ 40 :: (literal "192,168,1,10,19,137" ++
      41 :: (literal ".\r\n" ++ 0 :: [])) =
        literal "227 Entering Passive Mode (192,168,1,10,19,137).\r\n" ++ [0] := by decide +kernel
  have hparse := parsePassivePort_roundTrip (literal "227 Entering Passive Mode ")
    (literal ".\r\n") (by decide) 192 168 1 10 19 137 []
  rw [hnumbers, haddress, hline] at hparse
  exact ⟨by decide, hparse⟩

/-! ### Staying inside the reply -/

/-- The parser before its first turn. -/
theorem parsePassivePort_eq (memory : List UInt8) :
    parsePassivePort memory = portLoop memory portStart >>= fun r =>
      match r with
      | none => .ok none
      | some v => passivePort v >>= fun port => .ok (some (v.ip, port)) := rfl

/-- **The parser stays inside a reply**: its loop ends when there is nothing behind the NUL, and
what is there does not change the result. -/
def StaysInReply (text : CText) : Prop :=
  (∃ r, portLoop (text ++ [0]) portStart = .ok r) ∧
    ∀ memory, parsePassivePort (text ++ 0 :: memory) = parsePassivePort (text ++ [0])

/-- A parser that is still running does not see the NUL. -/
theorem portLoop_nul {w : PortParse} (hw : w.state ≠ .parseEnd) :
    portLoop [0] w = .error .outOfBounds := by
  have hstep : portStep 0 w = .ok (some w) := by
    cases hstate : w.state with
    | parseStart => exact portStep_parseStart hstate (by decide)
    | ipSection => exact portStep_ip_skip hstate (by decide) (by decide)
    | portSection => exact portStep_port_skip hstate (by decide) (by decide) (by decide)
    | parseEnd => exact absurd hstate hw
  rw [portLoop_cons_some hw hstep]
  rfl

/-- The loop in front of a NUL. -/
theorem portLoop_outcome (text : CText) :
    (Overlong text ∧ ∀ memory, portLoop (text ++ 0 :: memory) portStart = .ok none) ∨
      (¬ Overlong text ∧ Closed text ∧
        ∃ w, ∀ memory, portLoop (text ++ 0 :: memory) portStart = .ok (some w)) ∨
      ¬ Overlong text ∧ ¬ Closed text ∧ portLoop (text ++ [0]) portStart = .error .outOfBounds := by
  obtain ⟨r, hscan, hnone, hsome⟩ := portScan_outcome text
  cases r with
  | none => exact Or.inl ⟨hnone.1 rfl, fun memory => portLoop_of_none hscan _⟩
  | some w =>
      have hfits : ¬ Overlong text := hnone.not.1 (Option.some_ne_none w)
      have hend := hsome w rfl
      by_cases hw : w.state = .parseEnd
      · exact Or.inr (Or.inl ⟨hfits, hend.1 hw, w, portLoop_of_parseEnd hscan hw⟩)
      · refine Or.inr (Or.inr ⟨hfits, hend.not.1 hw, ?_⟩)
        rw [portLoop_of_running hscan hw, portLoop_nul hw]

/-- **The replies that the parser does not leave**: it gives up inside them, or it reaches its
end. -/
theorem staysInReply_iff (text : CText) : StaysInReply text ↔ Overlong text ∨ Closed text := by
  rcases portLoop_outcome text with ⟨hlong, hloop⟩ | ⟨-, hclosed, w, hloop⟩ | ⟨hfits, hopen, hloop⟩
  · refine iff_of_true ⟨⟨none, hloop []⟩, fun memory => ?_⟩ (Or.inl hlong)
    rw [parsePassivePort_eq, parsePassivePort_eq, hloop, hloop]
  · refine iff_of_true ⟨⟨some w, hloop []⟩, fun memory => ?_⟩ (Or.inr hclosed)
    rw [parsePassivePort_eq, parsePassivePort_eq, hloop, hloop]
  · refine iff_of_false ?_ (not_or.2 ⟨hfits, hopen⟩)
    rintro ⟨⟨r, hr⟩, -⟩
    rw [hloop] at hr
    cases hr

/-- **A reply without parentheses is left**, and the six numbers of an older reply behind it are
taken for its own. -/
theorem staysInReply_fails :
    ¬ StaysInReply (literal "227 ok\r\n") ∧
      parsePassivePort (literal "227 ok\r\n" ++ [0]) = .error .outOfBounds ∧
      parsePassivePort (literal "227 ok\r\n" ++ 0 :: (literal "(1,2,3,4,5,6)" ++ [0])) =
        .ok (some (literal "1.2.3.4", some 1286)) := by
  refine ⟨?_, rfl, rfl⟩
  rintro ⟨⟨r, hr⟩, -⟩
  have hloop : portLoop (literal "227 ok\r\n" ++ [0]) portStart = .error .outOfBounds := rfl
  rw [hloop] at hr
  cases hr

/-! ### Six numbers or none -/

/-- **The texts with six numbers**, each of at most 255, between the first opening parenthesis and
the next closing one. -/
def SixNumbers (text : CText) : Prop :=
  ∃ before numbers after, 40 ∉ before ∧ numbers.length = 6 ∧
    (∀ s ∈ numbers, s ≠ [] ∧ (∀ c ∈ s, isDigit c = true) ∧ decimal s ≤ 255) ∧
    text = before ++ 40 :: (separated 44 numbers ++ 41 :: after)

/-- **The parser is sound on a reply**: it returns, and when it accepts, the reply has six numbers,
`p1` and `p2` were assigned and the port is one. -/
def PortSound (text : CText) : Prop :=
  ∀ memory, ∃ r, parsePassivePort (text ++ 0 :: memory) = .ok r ∧
    ∀ ip port, r = some (ip, port) → SixNumbers text ∧ ∃ p, port = some p ∧ 0 ≤ p ∧ p ≤ 65535

/-- Six numbers are an address and two more. -/
theorem SixNumbers.exists_sixText {text : CText} (h : SixNumbers text) :
    ∃ before address s₁ s₂ after, 40 ∉ before ∧ address.length = 4 ∧
      (∀ s ∈ address, ∀ c ∈ s, isDigit c = true) ∧ (∀ c ∈ s₁, isDigit c = true) ∧
      (∀ c ∈ s₂, isDigit c = true) ∧ decimal s₁ ≤ 255 ∧ decimal s₂ ≤ 255 ∧
      text = sixText before address s₁ s₂ after := by
  obtain ⟨before, numbers, after, hbefore, hlen, hnumbers, rfl⟩ := h
  obtain ⟨a, b, c, d, s₁, s₂, rfl⟩ : ∃ a b c d s₁ s₂, numbers = [a, b, c, d, s₁, s₂] := by
    rcases numbers with _ | ⟨a, _ | ⟨b, _ | ⟨c, _ | ⟨d, _ | ⟨s₁, _ | ⟨s₂, _ | ⟨s₃, t⟩⟩⟩⟩⟩⟩⟩
    all_goals first
      | exact ⟨a, b, c, d, s₁, s₂, rfl⟩
      | simp only [List.length_cons, List.length_nil] at hlen; omega
  obtain ⟨-, hd₁, hle₁⟩ := hnumbers s₁ (by simp)
  obtain ⟨-, hd₂, hle₂⟩ := hnumbers s₂ (by simp)
  refine ⟨before, [a, b, c, d], s₁, s₂, after, hbefore, rfl, ?_, hd₁, hd₂, hle₁, hle₂, ?_⟩
  · intro s hs
    exact (hnumbers s (List.mem_append_left [s₁, s₂] hs)).2.1
  · rw [sixText]
    simp only [separated_cons_cons, separated_singleton, List.append_assoc, List.cons_append]

/-- **Six texts of digits that the parser does not give up at** fit its buffers. -/
theorem fits_of_not_overlong {before : CText} (hbefore : 40 ∉ before) {address : List CText}
    {s₁ s₂ : CText} (hcount : address.length = 4)
    (haddress : ∀ s ∈ address, ∀ c ∈ s, isDigit c = true) (h₁ : ∀ c ∈ s₁, isDigit c = true)
    (h₂ : ∀ c ∈ s₂, isDigit c = true) {after : CText}
    (h : ¬ Overlong (sixText before address s₁ s₂ after)) :
    (separated 46 address).length < ipMaxLength ∧ s₁.length < portBufferSize ∧
      s₂.length < portBufferSize := by
  have hcommas := count_address hcount haddress
  have hcut : BehindAddress (separated 44 address ++ 44 :: (s₁ ++ 44 :: (s₂ ++ 41 :: after)))
      (s₁ ++ 44 :: (s₂ ++ 41 :: after)) := ⟨_, hcommas, rfl⟩
  have hcomma₁ : 44 ∉ s₁ := not_mem_digits h₁ (by decide)
  have hcomma₂ : 44 ∉ s₂ := not_mem_digits h₂ (by decide)
  have hclose : 41 ∉ s₁ ++ 44 :: s₂ := by
    rw [List.mem_append, List.mem_cons, not_or, not_or]
    exact ⟨not_mem_digits h₁ (by decide), by decide, not_mem_digits h₂ (by decide)⟩
  have hsplit : s₁ ++ 44 :: (s₂ ++ 41 :: after) = (s₁ ++ 44 :: s₂) ++ 41 :: after := by
    rw [List.append_assoc, List.cons_append]
  have hip : ¬ ipMaxLength ≤ (separated 46 address).length := by
    intro hlong
    rw [← dotted_separated haddress, ← addressOverruns_of_cut hcommas] at hlong
    exact h ⟨_, behind_sixText hbefore after, Or.inl hlong⟩
  have hnumbers : ¬ (portBufferSize ≤ s₁.length ∨ portBufferSize ≤ s₂.length) := by
    intro hlong
    refine h ⟨_, behind_sixText hbefore after, Or.inr ⟨_, hcut, ?_⟩⟩
    rw [hsplit, takeWhile_close hclose, numberOverruns_append_comma hcomma₁,
      numberOverruns_of_not_mem hcomma₂, digitsOf_digits h₁, digitsOf_digits h₂]
    exact hlong
  omega

/-- **When the parser is sound**: the reply has six numbers, or the parser gives up in it. -/
theorem portSound_iff (text : CText) : PortSound text ↔ SixNumbers text ∨ Overlong text := by
  constructor
  · intro hsound
    obtain ⟨r, hparse, haccept⟩ := hsound []
    rw [parsePassivePort_eq] at hparse
    rcases portLoop_outcome text with ⟨hlong, -⟩ | ⟨-, -, w, hloop⟩ | ⟨-, -, hloop⟩
    · exact Or.inr hlong
    · rw [hloop, ok_bind] at hparse
      obtain ⟨port, -, hr⟩ := bind_eq_ok.1 hparse
      cases hr
      exact Or.inl (haccept _ _ rfl).1
    · rw [hloop] at hparse
      cases hparse
  · intro hcond memory
    by_cases hlong : Overlong text
    · obtain ⟨-, hloop⟩ | ⟨hfits, -⟩ | ⟨hfits, -⟩ := portLoop_outcome text
      · exact ⟨none, by rw [parsePassivePort_eq, hloop, ok_bind], by rintro ip port ⟨⟩⟩
      · exact absurd hlong hfits
      · exact absurd hlong hfits
    · have hsix := hcond.resolve_right hlong
      obtain ⟨before, address, s₁, s₂, after, hbefore, hcount, haddress, h₁, h₂, hle₁, hle₂, rfl⟩ :=
        hsix.exists_sixText
      obtain ⟨hip, hlen₁, hlen₂⟩ :=
        fits_of_not_overlong hbefore hcount haddress h₁ h₂ hlong
      have hint : (decimal s₁ : ℤ) * 256 + decimal s₂ ≤ intMax := by
        rw [intMax]
        omega
      refine ⟨_, parsePassivePort_sixText hbefore hcount haddress h₁ h₂ after hip hlen₁ hlen₂ hint
        memory, ?_⟩
      rintro ip port ⟨⟩
      exact ⟨hsix, _, rfl, by omega, by omega⟩

/-- **A reply with a port of more than 65535 is accepted**, one with five numbers leaves `p1`
unassigned, and a large number overflows. -/
theorem portSound_fails :
    ¬ PortSound (literal "227 (1,2,3,4,999,999)") ∧
      parsePassivePort (literal "227 (1,2,3,4,999,999)" ++ [0]) =
        .ok (some (literal "1.2.3.4", some 256743)) ∧
      parsePassivePort (literal "227 (1,2,3,4,5)" ++ [0]) = .ok (some (literal "1.2.3.4", none)) ∧
      parsePassivePort (literal "227 (1,2,3,4,999999999,0)" ++ [0]) = .error .signedOverflow := by
  have hparse : parsePassivePort (literal "227 (1,2,3,4,999,999)" ++ [0]) =
      .ok (some (literal "1.2.3.4", some 256743)) := rfl
  refine ⟨?_, hparse, rfl, rfl⟩
  intro hsound
  obtain ⟨r, hr, haccept⟩ := hsound []
  rw [hparse] at hr
  cases hr
  obtain ⟨-, p, hp, -, hle⟩ := haccept _ _ rfl
  cases hp
  omega

end Wsn
