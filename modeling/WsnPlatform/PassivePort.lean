/-
**The parser of the passive port.**

`ftp_uploader_parse_passive_port` goes through a reply once and builds the address and the numbers
of the port in two buffers of fixed sizes.  Its loop looks at the end of the reply only behind the
closing parenthesis, so it is told here what its turns do with any characters, and then where the
loop ends.

Main definitions:

* `portScan` — the turns of the loop over some characters;
* `PortStore`, `portStore` — the store that a turn makes into one of the buffers;
* `Overlong`, `Closed` — the texts for which the parser gives up, and those that reach its end.

Main results:

* `portStep_isOk_iff` — a turn faults exactly by a store outside its buffer;
* `parsePassivePort_storesInBounds` — every store is inside its buffer;
* `portScan_outcome` — what the turns over a text lead to;
* `portLoop_of_parseEnd`, `portLoop_of_running` — where the loop ends.
-/

import WsnPlatform.FtpReplies
import WsnPlatform.LineScan

set_option relaxedAutoImplicit false
set_option autoImplicit false

namespace Wsn

open CScan LineScan

/-! ### Turns -/

/-- The variables before the loop. -/
def portStart : PortParse := ⟨.parseStart, [], 0, [], none, none⟩

/-- **The turns over some characters**; `none` is a `return RET_OOM` in one of them. -/
def portScan : List UInt8 → PortParse → Exec (Option PortParse)
  | [], v => .ok (some v)
  | c :: cs, v => do
      let next ← portStep c v
      match next with
      | none => .ok none
      | some v => portScan cs v

section Turns

variable {cs : List UInt8} {v w : PortParse}

theorem portScan_cons_some {c : UInt8} (h : portStep c v = .ok (some w)) (cs : List UInt8) :
    portScan (c :: cs) v = portScan cs w := by
  rw [portScan, h, ok_bind]

theorem portScan_cons_none {c : UInt8} (h : portStep c v = .ok none) (cs : List UInt8) :
    portScan (c :: cs) v = .ok none := by
  rw [portScan, h, ok_bind]

theorem portScan_append_some (h : portScan cs v = .ok (some w)) (ds : List UInt8) :
    portScan (cs ++ ds) v = portScan ds w := by
  induction cs generalizing v with
  | nil => cases h; rfl
  | cons c cs ih =>
      rw [portScan] at h
      obtain ⟨next, hnext, hrest⟩ := bind_eq_ok.1 h
      cases next with
      | none => cases hrest
      | some u => rw [List.cons_append, portScan_cons_some hnext, ih hrest]

theorem portScan_append_none (h : portScan cs v = .ok none) (ds : List UInt8) :
    portScan (cs ++ ds) v = .ok none := by
  induction cs generalizing v with
  | nil => cases h
  | cons c cs ih =>
      rw [portScan] at h
      obtain ⟨next, hnext, hrest⟩ := bind_eq_ok.1 h
      rw [List.cons_append]
      cases next with
      | none => exact portScan_cons_none hnext _
      | some u => rw [portScan_cons_some hnext, ih hrest]

end Turns

/-! ### Stores -/

/-- A store into one of the buffers, with its index. -/
inductive PortStore
  | ip (index : ℕ)
  | portBuffer (index : ℕ)
  deriving DecidableEq

/-- The index is below the size of the buffer. -/
def PortStore.InBounds : PortStore → Prop
  | .ip index => index < ipMaxLength
  | .portBuffer index => index < portBufferSize

/-- **The store that a turn makes**: a digit, a point, or a NUL behind what is in the buffer. -/
def portStore (c : UInt8) (v : PortParse) : Option PortStore :=
  match v.state with
  | .ipSection => if isDigit c = true ∨ c = 44 then some (.ip v.ip.length) else none
  | .portSection =>
      if isDigit c = true ∨ c = 44 ∨ c = 41 then some (.portBuffer v.portBuffer.length) else none
  | _ => none

/-- **Both indices are below the sizes of their buffers**, so that there is room for one more
character in each. -/
structure PortInBounds (v : PortParse) : Prop where
  ip : v.ip.length < ipMaxLength
  portBuffer : v.portBuffer.length < portBufferSize

theorem portInBounds_start : PortInBounds portStart := ⟨by decide, by decide⟩

theorem PortInBounds.store {v : PortParse} (h : PortInBounds v) {c : UInt8} {store : PortStore}
    (hstore : portStore c v = some store) : store.InBounds := by
  unfold portStore at hstore
  split at hstore
  · split at hstore
    · cases hstore; exact h.ip
    · cases hstore
  · split at hstore
    · cases hstore; exact h.portBuffer
    · cases hstore
  · cases hstore

section Buffers

variable {size : ℕ} {buffer : CText}

theorem storeChar_of_lt (h : buffer.length < size) (c : UInt8) :
    storeChar size buffer c = .ok (buffer ++ [c]) := if_pos h

/-- **A character is stored while there is room**; the last place is not used. -/
theorem storeOrOom_of_lt (h : buffer.length < size) (c : UInt8) :
    storeOrOom size buffer c =
      .ok (if (buffer ++ [c]).length < size then some (buffer ++ [c]) else none) := by
  rw [storeOrOom, storeChar_of_lt h, ok_bind]
  rw [List.length_append, List.length_singleton]
  split_ifs
  · omega
  · rfl
  · rfl
  · omega

/-- A store is refused exactly when its index is the size or more. -/
theorem storeChar_isOk (c : UInt8) :
    (∃ r, storeChar size buffer c = .ok r) ↔ buffer.length < size := by
  unfold storeChar
  split_ifs with h
  · exact iff_of_true ⟨_, rfl⟩ h
  · exact iff_of_false (by rintro ⟨r, hr⟩; cases hr) h

theorem storeOrOom_isOk (c : UInt8) :
    (∃ r, storeOrOom size buffer c = .ok r) ↔ buffer.length < size := by
  rw [← storeChar_isOk c]
  constructor
  · rintro ⟨r, hr⟩
    obtain ⟨b, hb, -⟩ := bind_eq_ok.1 hr
    exact ⟨b, hb⟩
  · rintro ⟨b, hb⟩
    exact ⟨_, by rw [storeOrOom, hb, ok_bind]⟩

end Buffers

/-- A computation that goes on with what a first one returns succeeds if that does. -/
theorem isOk_bind {α β : Type} {x : Exec α} {f : α → Exec β} (hf : ∀ a, ∃ b, f a = .ok b) :
    (∃ r, (x >>= f) = .ok r) ↔ ∃ a, x = .ok a := by
  constructor
  · rintro ⟨r, hr⟩
    obtain ⟨a, ha, -⟩ := bind_eq_ok.1 hr
    exact ⟨a, ha⟩
  · rintro ⟨a, ha⟩
    obtain ⟨b, hb⟩ := hf a
    exact ⟨b, by rw [ha, ok_bind, hb]⟩

theorem forall_store_iff (store : PortStore) :
    (∀ s, some store = some s → s.InBounds) ↔ store.InBounds := by
  simp

/-- **A turn faults exactly by a store outside its buffer.** -/
theorem portStep_isOk_iff (c : UInt8) (v : PortParse) :
    (∃ r, portStep c v = .ok r) ↔ ∀ store, portStore c v = some store → store.InBounds := by
  unfold portStep portStore
  cases v.state with
  | parseStart => simp
  | parseEnd => simp
  | ipSection =>
      dsimp only
      by_cases hdigit : isDigit c = true
      · rw [if_pos hdigit, if_pos (Or.inl hdigit), forall_store_iff]
        exact (isOk_bind fun _ => ⟨_, rfl⟩).trans (storeOrOom_isOk c)
      · by_cases hcomma : c = 44
        · rw [if_neg hdigit, if_pos hcomma, if_pos (Or.inr hcomma), forall_store_iff]
          split_ifs
          · exact (isOk_bind fun _ => ⟨_, rfl⟩).trans (storeOrOom_isOk 46)
          · exact (isOk_bind fun _ => ⟨_, rfl⟩).trans (storeChar_isOk 0)
        · simp [hdigit, hcomma]
  | portSection =>
      dsimp only
      by_cases hdigit : isDigit c = true
      · rw [if_pos hdigit, if_pos (Or.inl hdigit), forall_store_iff]
        exact (isOk_bind fun _ => ⟨_, rfl⟩).trans (storeOrOom_isOk c)
      · by_cases hcomma : c = 44
        · rw [if_neg hdigit, if_pos hcomma, if_pos (Or.inr (Or.inl hcomma)), forall_store_iff]
          exact (isOk_bind fun _ => ⟨_, rfl⟩).trans (storeChar_isOk 0)
        · by_cases hclose : c = 41
          · rw [if_neg hdigit, if_neg hcomma, if_pos hclose, if_pos (Or.inr (Or.inr hclose)),
              forall_store_iff]
            exact (isOk_bind fun _ => ⟨_, rfl⟩).trans (storeChar_isOk 0)
          · simp [hdigit, hcomma, hclose]

/-! ### One turn -/

section Steps

variable {v : PortParse} {c : UInt8}

theorem portStep_parseStart (hstate : v.state = .parseStart) (hc : c ≠ 40) :
    portStep c v = .ok (some v) := by
  unfold portStep
  rw [hstate]
  simp only [if_neg hc]

theorem portStep_open (hstate : v.state = .parseStart) :
    portStep 40 v = .ok (some { v with state := .ipSection }) := by
  unfold portStep
  rw [hstate]
  rfl

theorem portStep_parseEnd (hstate : v.state = .parseEnd) : portStep c v = .ok (some v) := by
  unfold portStep
  rw [hstate]

/-- Neither a digit nor a comma: nothing is done with it. -/
theorem portStep_ip_skip (hstate : v.state = .ipSection) (hdigit : ¬ isDigit c = true)
    (hcomma : c ≠ 44) : portStep c v = .ok (some v) := by
  unfold portStep
  rw [hstate]
  simp only [if_neg hdigit, if_neg hcomma]

theorem portStep_port_skip (hstate : v.state = .portSection) (hdigit : ¬ isDigit c = true)
    (hcomma : c ≠ 44) (hclose : c ≠ 41) : portStep c v = .ok (some v) := by
  unfold portStep
  rw [hstate]
  simp only [if_neg hdigit, if_neg hcomma, if_neg hclose]

theorem portStep_ip_digit (hstate : v.state = .ipSection) (hip : v.ip.length < ipMaxLength)
    (hdigit : isDigit c = true) :
    portStep c v = .ok (if (v.ip ++ [c]).length < ipMaxLength
      then some { v with ip := v.ip ++ [c] } else none) := by
  unfold portStep
  rw [hstate]
  simp only [if_pos hdigit, storeOrOom_of_lt hip, ok_bind]
  split_ifs <;> rfl

theorem portStep_ip_comma (hstate : v.state = .ipSection) (hip : v.ip.length < ipMaxLength)
    (hdelims : v.delimsCount + 1 < 4) :
    portStep 44 v = .ok (if (v.ip ++ [46]).length < ipMaxLength
      then some { v with ip := v.ip ++ [46], delimsCount := v.delimsCount + 1 } else none) := by
  have hdigit : ¬ isDigit 44 = true := by decide
  unfold portStep
  rw [hstate]
  simp only [if_neg hdigit, if_true, if_pos hdelims, storeOrOom_of_lt hip, ok_bind]
  split_ifs <;> rfl

/-- The fourth comma ends the address. -/
theorem portStep_ip_last (hstate : v.state = .ipSection) (hip : v.ip.length < ipMaxLength)
    (hdelims : ¬ v.delimsCount + 1 < 4) :
    portStep 44 v =
      .ok (some { v with delimsCount := v.delimsCount + 1, state := .portSection }) := by
  have hdigit : ¬ isDigit 44 = true := by decide
  unfold portStep
  rw [hstate]
  simp only [if_neg hdigit, if_true, if_neg hdelims, storeChar_of_lt hip, ok_bind]

theorem portStep_port_digit (hstate : v.state = .portSection)
    (hroom : v.portBuffer.length < portBufferSize) (hdigit : isDigit c = true) :
    portStep c v = .ok (if (v.portBuffer ++ [c]).length < portBufferSize
      then some { v with portBuffer := v.portBuffer ++ [c] } else none) := by
  unfold portStep
  rw [hstate]
  simp only [if_pos hdigit, storeOrOom_of_lt hroom, ok_bind]
  split_ifs <;> rfl

theorem portStep_port_comma (hstate : v.state = .portSection)
    (hroom : v.portBuffer.length < portBufferSize) :
    portStep 44 v = .ok (some { v with p1 := some (atoi v.portBuffer), portBuffer := [] }) := by
  have hdigit : ¬ isDigit 44 = true := by decide
  unfold portStep
  rw [hstate]
  simp only [if_neg hdigit, if_true, storeChar_of_lt hroom, ok_bind]

theorem portStep_port_close (hstate : v.state = .portSection)
    (hroom : v.portBuffer.length < portBufferSize) :
    portStep 41 v = .ok (some
      { v with p2 := some (atoi v.portBuffer), portBuffer := [], state := .parseEnd }) := by
  have hdigit : ¬ isDigit 41 = true := by decide
  have hcomma : ¬ (41 : UInt8) = 44 := by decide
  unfold portStep
  rw [hstate]
  simp only [if_neg hdigit, if_neg hcomma, if_true, storeChar_of_lt hroom, ok_bind]

end Steps

/-! ### No store is outside its buffer -/

/-- **A turn keeps the bounds**, or is the last one. -/
theorem portStep_inBounds {v : PortParse} (h : PortInBounds v) (c : UInt8) :
    ∃ r, portStep c v = .ok r ∧ ∀ w, r = some w → PortInBounds w := by
  have hempty : ([] : CText).length < portBufferSize := by decide
  cases hstate : v.state with
  | parseStart =>
      by_cases hc : c = 40
      · subst hc
        exact ⟨_, portStep_open hstate, by rintro w ⟨⟩; exact ⟨h.ip, h.portBuffer⟩⟩
      · exact ⟨_, portStep_parseStart hstate hc, by rintro w ⟨⟩; exact h⟩
  | parseEnd => exact ⟨_, portStep_parseEnd hstate, by rintro w ⟨⟩; exact h⟩
  | ipSection =>
      by_cases hdigit : isDigit c = true
      · refine ⟨_, portStep_ip_digit hstate h.ip hdigit, fun w hw => ?_⟩
        obtain ⟨hroom, ⟨⟩⟩ := Option.ite_none_right_eq_some.1 hw
        exact ⟨hroom, h.portBuffer⟩
      · by_cases hcomma : c = 44
        · subst hcomma
          by_cases hdelims : v.delimsCount + 1 < 4
          · refine ⟨_, portStep_ip_comma hstate h.ip hdelims, fun w hw => ?_⟩
            obtain ⟨hroom, ⟨⟩⟩ := Option.ite_none_right_eq_some.1 hw
            exact ⟨hroom, h.portBuffer⟩
          · exact ⟨_, portStep_ip_last hstate h.ip hdelims,
              by rintro w ⟨⟩; exact ⟨h.ip, h.portBuffer⟩⟩
        · exact ⟨_, portStep_ip_skip hstate hdigit hcomma, by rintro w ⟨⟩; exact h⟩
  | portSection =>
      by_cases hdigit : isDigit c = true
      · refine ⟨_, portStep_port_digit hstate h.portBuffer hdigit, fun w hw => ?_⟩
        obtain ⟨hroom, ⟨⟩⟩ := Option.ite_none_right_eq_some.1 hw
        exact ⟨h.ip, hroom⟩
      · by_cases hcomma : c = 44
        · subst hcomma
          exact ⟨_, portStep_port_comma hstate h.portBuffer, by rintro w ⟨⟩; exact ⟨h.ip, hempty⟩⟩
        · by_cases hclose : c = 41
          · subst hclose
            exact ⟨_, portStep_port_close hstate h.portBuffer,
              by rintro w ⟨⟩; exact ⟨h.ip, hempty⟩⟩
          · exact ⟨_, portStep_port_skip hstate hdigit hcomma hclose, by rintro w ⟨⟩; exact h⟩

/-- **The turns over any characters keep the bounds.** -/
theorem portScan_inBounds (cs : List UInt8) {v : PortParse} (h : PortInBounds v) :
    ∃ r, portScan cs v = .ok r ∧ ∀ w, r = some w → PortInBounds w := by
  induction cs generalizing v with
  | nil => exact ⟨_, rfl, by rintro w ⟨⟩; exact h⟩
  | cons c cs ih =>
      obtain ⟨next, hstep, hnext⟩ := portStep_inBounds h c
      cases next with
      | none => exact ⟨none, portScan_cons_none hstep cs, by rintro w ⟨⟩⟩
      | some u =>
          rw [portScan_cons_some hstep]
          exact ih (hnext u rfl)

/-- **The loop faults only behind the last character in memory**: no turn of it does. -/
theorem portLoop_error {memory : List UInt8} {v : PortParse} (h : PortInBounds v) {e : Fault}
    (hfault : portLoop memory v = .error e) :
    e = .outOfBounds ∧ ∃ w, portScan memory v = .ok (some w) := by
  induction memory generalizing v with
  | nil => cases hfault; exact ⟨rfl, v, rfl⟩
  | cons c memory ih =>
      rw [portLoop] at hfault
      split at hfault
      · obtain ⟨next, hstep, hnext⟩ := portStep_inBounds h c
        rw [hstep, ok_bind] at hfault
        cases next with
        | none => cases hfault
        | some u =>
            obtain ⟨he, w, hw⟩ := ih (hnext u rfl) hfault
            exact ⟨he, w, by rw [portScan_cons_some hstep, hw]⟩
      · cases hfault

/-- **Every store is inside its buffer**, the NULs behind the address and the numbers included:
whatever characters were scanned, the store of the next turn is, no turn faults, and the loop does
only when it has scanned all the memory. -/
theorem parsePassivePort_storesInBounds (cs : List UInt8) :
    (∃ r, portScan cs portStart = .ok r) ∧
    (∀ v, portScan cs portStart = .ok (some v) →
      ∀ c store, portStore c v = some store → store.InBounds) ∧
    ∀ e, portLoop cs portStart = .error e →
      e = .outOfBounds ∧ ∃ v, portScan cs portStart = .ok (some v) := by
  obtain ⟨r, hscan, hbounds⟩ := portScan_inBounds cs portInBounds_start
  refine ⟨⟨r, hscan⟩, ?_, ?_⟩
  · intro v hv c store hstore
    rw [hscan] at hv
    exact (hbounds v (Except.ok.inj hv)).store hstore
  · intro e he
    exact portLoop_error portInBounds_start he

/-! ### The address -/

/-- **What a text adds to the address**: its digits, and a point for each comma. -/
def dotted (text : CText) : CText :=
  text.filterMap fun c => if isDigit c = true then some c else if c = 44 then some 46 else none

theorem dotted_append (s t : CText) : dotted (s ++ t) = dotted s ++ dotted t :=
  List.filterMap_append

theorem dotted_cons_digit {c : UInt8} (hc : isDigit c = true) (text : CText) :
    dotted (c :: text) = c :: dotted text := by
  simp [dotted, hc]

theorem dotted_cons_comma (text : CText) : dotted (44 :: text) = 46 :: dotted text := rfl

theorem dotted_cons_skip {c : UInt8} (hc : ¬ isDigit c = true) (hcomma : c ≠ 44) (text : CText) :
    dotted (c :: text) = dotted text := by
  simp [dotted, hc, hcomma]

theorem dotted_digits {text : CText} (h : ∀ c ∈ text, isDigit c = true) : dotted text = text := by
  induction text with
  | nil => rfl
  | cons c text ih =>
      rw [dotted_cons_digit (h c List.mem_cons_self),
        ih fun d hd => h d (List.mem_cons_of_mem c hd)]

/-- The variables when some of the address has been scanned. -/
def PortParse.addressed (v : PortParse) (text : CText) : PortParse :=
  { v with ip := v.ip ++ dotted text, delimsCount := v.delimsCount + text.count 44 }

/-- **The turns over some of the address**, up to the fourth comma. -/
theorem portScan_address {v : PortParse} (hstate : v.state = .ipSection)
    (hip : v.ip.length < ipMaxLength) {text : CText} (hcount : v.delimsCount + text.count 44 ≤ 3) :
    portScan text v = .ok (if (v.ip ++ dotted text).length < ipMaxLength
      then some (v.addressed text) else none) := by
  induction text generalizing v with
  | nil =>
      have hnil : v.addressed [] = v := by simp [PortParse.addressed, dotted]
      rw [hnil, dotted, List.filterMap_nil, List.append_nil, if_pos hip]
      rfl
  | cons c text ih =>
      -- a character that is put behind the address, as `d`
      have hput {d : UInt8} {w : PortParse} (hd : dotted (c :: text) = d :: dotted text)
          (hstep : portStep c v = .ok (if (v.ip ++ [d]).length < ipMaxLength then some w else none))
          (hw : w.state = .ipSection) (hwip : w.ip = v.ip ++ [d])
          (hwcount : w.delimsCount + text.count 44 ≤ 3)
          (hwaddr : w.addressed text = v.addressed (c :: text)) :
          portScan (c :: text) v = .ok (if (v.ip ++ dotted (c :: text)).length < ipMaxLength
            then some (v.addressed (c :: text)) else none) := by
        have hsplit : v.ip ++ dotted (c :: text) = w.ip ++ dotted text := by
          rw [hd, hwip, List.append_assoc, List.singleton_append]
        rw [hsplit]
        by_cases hroom : (v.ip ++ [d]).length < ipMaxLength
        · rw [if_pos hroom] at hstep
          rw [portScan_cons_some hstep, ih hw (hwip ▸ hroom) hwcount, hwaddr]
        · rw [if_neg hroom] at hstep
          have hlong : ¬ (w.ip ++ dotted text).length < ipMaxLength := by
            rw [List.length_append, hwip]
            omega
          rw [portScan_cons_none hstep, if_neg hlong]
      by_cases hdigit : isDigit c = true
      · have hc : c ≠ 44 := by rintro rfl; revert hdigit; decide
        have hcount' : (c :: text).count 44 = text.count 44 := List.count_cons_of_ne hc
        refine hput (dotted_cons_digit hdigit text) (portStep_ip_digit hstate hip hdigit) hstate rfl
          (by rwa [hcount'] at hcount) ?_
        simp [PortParse.addressed, dotted_cons_digit hdigit, hcount']
      · by_cases hcomma : c = 44
        · subst hcomma
          have hcount' : (44 :: text).count 44 = text.count 44 + 1 := List.count_cons_self
          refine hput (dotted_cons_comma text) (portStep_ip_comma hstate hip (by omega)) hstate rfl
            (by rw [hcount'] at hcount; simp only; omega) ?_
          simp [PortParse.addressed, dotted_cons_comma, hcount', add_assoc, add_comm 1]
        · have hcount' : (c :: text).count 44 = text.count 44 := List.count_cons_of_ne hcomma
          have haddr : v.addressed (c :: text) = v.addressed text := by
            simp [PortParse.addressed, dotted_cons_skip hdigit hcomma, hcount']
          rw [hcount'] at hcount
          rw [portScan_cons_some (portStep_ip_skip hstate hdigit hcomma), ih hstate hip hcount,
            haddr, dotted_cons_skip hdigit hcomma]

/-! ### The numbers of the port -/

/-- The digits of a text. -/
def digitsOf (text : CText) : CText := text.filter isDigit

theorem digitsOf_digits {text : CText} (h : ∀ c ∈ text, isDigit c = true) : digitsOf text = text :=
  List.filter_eq_self.2 h

/-- **The turns over one number**: its digits are put into the buffer, while there is room. -/
theorem portScan_number {v : PortParse} (hstate : v.state = .portSection)
    (hroom : v.portBuffer.length < portBufferSize) {text : CText} (hcomma : 44 ∉ text)
    (hclose : 41 ∉ text) :
    portScan text v = .ok (if (v.portBuffer ++ digitsOf text).length < portBufferSize
      then some { v with portBuffer := v.portBuffer ++ digitsOf text } else none) := by
  induction text generalizing v with
  | nil =>
      rw [digitsOf, List.filter_nil, List.append_nil, if_pos hroom]
      rfl
  | cons c text ih =>
      rw [List.mem_cons, not_or] at hcomma hclose
      by_cases hdigit : isDigit c = true
      · have hdigits : digitsOf (c :: text) = c :: digitsOf text := List.filter_cons_of_pos hdigit
        have hsplit : v.portBuffer ++ digitsOf (c :: text) =
            v.portBuffer ++ [c] ++ digitsOf text := by
          rw [hdigits, List.append_assoc, List.singleton_append]
        have hstep := portStep_port_digit hstate hroom hdigit
        rw [hsplit]
        by_cases hmore : (v.portBuffer ++ [c]).length < portBufferSize
        · rw [if_pos hmore] at hstep
          rw [portScan_cons_some hstep]
          exact ih hstate hmore hcomma.2 hclose.2
        · rw [if_neg hmore] at hstep
          have hlong : ¬ (v.portBuffer ++ [c] ++ digitsOf text).length < portBufferSize := by
            rw [List.length_append]
            omega
          rw [portScan_cons_none hstep, if_neg hlong]
      · have hdigits : digitsOf (c :: text) = digitsOf text := List.filter_cons_of_neg hdigit
        rw [portScan_cons_some
          (portStep_port_skip hstate hdigit (Ne.symm hcomma.1) (Ne.symm hclose.1)), hdigits]
        exact ih hstate hroom hcomma.2 hclose.2

/-- **A number of the port has too many digits**: one of the texts between the commas. -/
def NumberOverruns (ports : CText) : Prop :=
  ∃ number ∈ ports.splitOn 44, portBufferSize ≤ (digitsOf number).length

theorem numberOverruns_of_not_mem {text : CText} (h : 44 ∉ text) :
    NumberOverruns text ↔ portBufferSize ≤ (digitsOf text).length := by
  rw [NumberOverruns, List.splitOn_eq_singleton h]
  simp

theorem numberOverruns_append_comma {number : CText} (h : 44 ∉ number) (ports : CText) :
    NumberOverruns (number ++ 44 :: ports) ↔
      portBufferSize ≤ (digitsOf number).length ∨ NumberOverruns ports := by
  rw [NumberOverruns, List.splitOn_append_cons_self_of_not_mem h]
  simp [NumberOverruns]

/-- **The turns over the numbers of the port**, in front of the parenthesis. -/
theorem portScan_ports {ports : CText} {v : PortParse} (hstate : v.state = .portSection)
    (hempty : v.portBuffer = []) (hclose : 41 ∉ ports) :
    ∃ r, portScan ports v = .ok r ∧ (r = none ↔ NumberOverruns ports) ∧
      ∀ w, r = some w → w.state = .portSection ∧ w.portBuffer.length < portBufferSize := by
  have hroom : v.portBuffer.length < portBufferSize := by rw [hempty]; decide
  induction ports using induction_lines (44 : UInt8) generalizing v with
  | last text hcomma =>
      have hscan := portScan_number hstate hroom hcomma hclose
      rw [hempty, List.nil_append] at hscan
      refine ⟨_, hscan, ?_, ?_⟩
      · rw [numberOverruns_of_not_mem hcomma]
        simp
      · intro w hw
        obtain ⟨hlt, ⟨⟩⟩ := Option.ite_none_right_eq_some.1 hw
        exact ⟨hstate, hlt⟩
  | cons number ports hcomma ih =>
      have hclose' : 41 ∉ number ∧ 41 ∉ ports := by simpa using hclose
      have hscan := portScan_number hstate hroom hcomma hclose'.1
      rw [hempty, List.nil_append] at hscan
      rw [numberOverruns_append_comma hcomma]
      by_cases hlt : (digitsOf number).length < portBufferSize
      · rw [if_pos hlt] at hscan
        have hnext := portStep_port_comma (v := { v with portBuffer := digitsOf number }) hstate hlt
        obtain ⟨r, hrest, hnone, hsome⟩ := ih (v := { v with
          p1 := some (atoi (digitsOf number)), portBuffer := [] }) hstate rfl hclose'.2
          (Nat.zero_lt_succ _)
        refine ⟨r, ?_, ?_, hsome⟩
        · rw [portScan_append_some hscan, portScan_cons_some hnext, hrest]
        · rw [hnone, or_iff_right (by omega)]
      · rw [if_neg hlt] at hscan
        refine ⟨none, portScan_append_none hscan _, ?_, by rintro w ⟨⟩⟩
        exact iff_of_true rfl (Or.inl (by omega))

/-! ### What the turns over a text lead to -/

/-- The text behind the first parenthesis. -/
def Behind (text body : CText) : Prop := ∃ before, 40 ∉ before ∧ text = before ++ 40 :: body

/-- The text behind the address: behind the fourth comma. -/
def BehindAddress (body ports : CText) : Prop :=
  ∃ address, address.count 44 = 3 ∧ body = address ++ 44 :: ports

/-- **The address is too long**: its digits and its points, up to the fourth comma. -/
def AddressOverruns (body : CText) : Prop :=
  ∃ front, front <+: body ∧ front.count 44 ≤ 3 ∧ ipMaxLength ≤ (dotted front).length

/-- **The texts for which the parser gives up**: the address is too long, or a number of the port in
front of the closing parenthesis. -/
def Overlong (text : CText) : Prop :=
  ∃ body, Behind text body ∧ (AddressOverruns body ∨
    ∃ ports, BehindAddress body ports ∧ NumberOverruns (ports.takeWhile (· ≠ 41)))

/-- **The texts that reach the end of the parser**: behind the address stands a closing
parenthesis. -/
def Closed (text : CText) : Prop :=
  ∃ body ports, Behind text body ∧ BehindAddress body ports ∧ 41 ∈ ports

theorem Behind.unique {text body body' : CText} (h : Behind text body) (h' : Behind text body') :
    body = body' := by
  obtain ⟨before, hbefore, rfl⟩ := h
  obtain ⟨before', hbefore', htext⟩ := h'
  have hcount : before.count 40 = before'.count 40 := by
    rw [List.count_eq_zero_of_not_mem hbefore, List.count_eq_zero_of_not_mem hbefore']
  exact cut_unique hcount htext

theorem BehindAddress.unique {body ports ports' : CText} (h : BehindAddress body ports)
    (h' : BehindAddress body ports') : ports = ports' := by
  obtain ⟨address, hcount, rfl⟩ := h
  obtain ⟨address', hcount', hbody⟩ := h'
  exact cut_unique (hcount.trans hcount'.symm) hbody

theorem BehindAddress.count {body ports : CText} (h : BehindAddress body ports) :
    3 < body.count 44 := by
  obtain ⟨address, hcount, rfl⟩ := h
  rw [List.count_append, List.count_cons_self, hcount]
  omega

/-- More of a text does not shorten the address. -/
theorem dotted_length_le {front text : CText} (h : front <+: text) :
    (dotted front).length ≤ (dotted text).length :=
  (h.filterMap _).length_le

theorem addressOverruns_of_count {body : CText} (h : body.count 44 ≤ 3) :
    AddressOverruns body ↔ ipMaxLength ≤ (dotted body).length := by
  constructor
  · rintro ⟨front, hfront, -, hlong⟩
    exact hlong.trans (dotted_length_le hfront)
  · intro hlong
    exact ⟨body, List.prefix_refl body, h, hlong⟩

theorem addressOverruns_of_cut {address : CText} (h : address.count 44 = 3) (ports : CText) :
    AddressOverruns (address ++ 44 :: ports) ↔ ipMaxLength ≤ (dotted address).length := by
  constructor
  · rintro ⟨front, hfront, hcount, hlong⟩
    refine hlong.trans (dotted_length_le ?_)
    have hcut : address ++ [44] <+: address ++ 44 :: ports := ⟨ports, by simp⟩
    have hone : [(44 : UInt8)].count 44 = 1 := rfl
    rcases List.prefix_or_prefix_of_prefix hfront hcut with hle | hge
    · rcases List.prefix_concat_iff.1 hle with rfl | hle
      · rw [List.count_append, h] at hcount
        omega
      · exact hle
    · -- the fourth comma would be one of the front
      have hfour := hge.sublist.count_le 44
      rw [List.count_append, h] at hfour
      omega
  · intro hlong
    exact ⟨address, List.prefix_append _ _, h.le, hlong⟩

theorem portScan_parseStart {text : CText} {v : PortParse} (hstate : v.state = .parseStart)
    (h : 40 ∉ text) : portScan text v = .ok (some v) := by
  induction text with
  | nil => rfl
  | cons c text ih =>
      rw [List.mem_cons, not_or] at h
      rw [portScan_cons_some (portStep_parseStart hstate (Ne.symm h.1)), ih h.2]

theorem portScan_parseEnd {v : PortParse} (hstate : v.state = .parseEnd) (text : CText) :
    portScan text v = .ok (some v) := by
  induction text with
  | nil => rfl
  | cons c text ih => rw [portScan_cons_some (portStep_parseEnd hstate), ih]

/-- The variables behind the opening parenthesis. -/
def portOpened : PortParse := { portStart with state := .ipSection }

theorem portScan_behind {text body : CText} (h : Behind text body) :
    portScan text portStart = portScan body portOpened := by
  obtain ⟨before, hbefore, rfl⟩ := h
  rw [portScan_append_some (portScan_parseStart rfl hbefore),
    portScan_cons_some (portStep_open rfl)]
  rfl

/-- The variables behind the address. -/
def portAddressed (address : CText) : PortParse :=
  { portStart with state := .portSection, ip := dotted address, delimsCount := 4 }

/-- **The turns over the address**, up to the comma behind it. -/
theorem portScan_cut {address : CText} (h : address.count 44 = 3) (ports : CText) :
    portScan (address ++ 44 :: ports) portOpened =
      if (dotted address).length < ipMaxLength then portScan ports (portAddressed address)
      else .ok none := by
  have hcommas : portOpened.delimsCount + address.count 44 ≤ 3 := by
    rw [h]
    decide
  have hscan := portScan_address (v := portOpened) rfl (by decide) hcommas
  have hip : portOpened.ip ++ dotted address = dotted address := rfl
  rw [hip] at hscan
  split_ifs with hroom
  · rw [if_pos hroom] at hscan
    have hcount : (portOpened.addressed address).delimsCount = 3 := by
      simp [PortParse.addressed, portOpened, portStart, h]
    have hlast := portStep_ip_last (v := portOpened.addressed address) rfl hroom (by omega)
    rw [portScan_append_some hscan, portScan_cons_some hlast, hcount]
    rfl
  · rw [if_neg hroom] at hscan
    exact portScan_append_none hscan _

/-- The text in front of the closing parenthesis. -/
theorem takeWhile_close {numbers : CText} (h : 41 ∉ numbers) (after : CText) :
    (numbers ++ 41 :: after).takeWhile (· ≠ 41) = numbers := by
  have hne : ∀ c ∈ numbers, decide (c ≠ 41) = true := fun c hc =>
    decide_eq_true (ne_of_mem_of_not_mem hc h)
  rw [List.takeWhile_append_of_pos hne]
  simp

/-- **The turns over the numbers of the port and what follows them.** -/
theorem portScan_numbers (ports : CText) {v : PortParse} (hstate : v.state = .portSection)
    (hempty : v.portBuffer = []) :
    ∃ r, portScan ports v = .ok r ∧ (r = none ↔ NumberOverruns (ports.takeWhile (· ≠ 41))) ∧
      ∀ w, r = some w → (w.state = .parseEnd ↔ 41 ∈ ports) := by
  by_cases hclose : 41 ∈ ports
  · obtain ⟨numbers, after, rfl, hnumbers⟩ := List.eq_append_cons_of_mem hclose
    obtain ⟨r, hscan, hnone, hsome⟩ := portScan_ports hstate hempty hnumbers
    rw [takeWhile_close hnumbers]
    cases r with
    | none => exact ⟨none, portScan_append_none hscan _, hnone, by rintro w ⟨⟩⟩
    | some w =>
        obtain ⟨hw, hroom⟩ := hsome w rfl
        have hend : portScan (numbers ++ 41 :: after) v = .ok (some
            { w with p2 := some (atoi w.portBuffer), portBuffer := [], state := .parseEnd }) := by
          rw [portScan_append_some hscan, portScan_cons_some (portStep_port_close hw hroom),
            portScan_parseEnd rfl]
        refine ⟨_, hend, iff_of_false (Option.some_ne_none _) ?_, ?_⟩
        · exact hnone.not.1 (Option.some_ne_none w)
        · rintro w ⟨⟩
          exact iff_of_true rfl hclose
  · have htake : ports.takeWhile (· ≠ 41) = ports :=
      List.takeWhile_eq_self_iff.2 fun c hc => decide_eq_true (ne_of_mem_of_not_mem hc hclose)
    obtain ⟨r, hscan, hnone, hsome⟩ := portScan_ports hstate hempty hclose
    refine ⟨r, hscan, by rwa [htake], fun w hw => iff_of_false ?_ hclose⟩
    rw [(hsome w hw).1]
    exact ParseState.noConfusion

/-- **The turns over the text behind the parenthesis.** -/
theorem portScan_body (body : CText) :
    ∃ r, portScan body portOpened = .ok r ∧
      (r = none ↔ AddressOverruns body ∨
        ∃ ports, BehindAddress body ports ∧ NumberOverruns (ports.takeWhile (· ≠ 41))) ∧
      ∀ w, r = some w → (w.state = .parseEnd ↔ ∃ ports, BehindAddress body ports ∧ 41 ∈ ports) := by
  rcases exists_cut (44 : UInt8) 3 body with hfew | ⟨address, ports, hcount, rfl⟩
  · -- the address is not left
    have hcut : ¬ ∃ ports, BehindAddress body ports := by
      rintro ⟨ports, hports⟩
      have := hports.count
      omega
    have hno {P : CText → Prop} : ¬ ∃ ports, BehindAddress body ports ∧ P ports := by
      rintro ⟨ports, hports, -⟩
      exact hcut ⟨ports, hports⟩
    have hnone : portOpened.delimsCount = 0 := rfl
    have hcommas : portOpened.delimsCount + body.count 44 ≤ 3 := by omega
    have hscan := portScan_address (v := portOpened) rfl (by decide) hcommas
    have hip : portOpened.ip ++ dotted body = dotted body := rfl
    rw [hip] at hscan
    refine ⟨_, hscan, ?_, ?_⟩
    · rw [addressOverruns_of_count hfew, or_iff_left hno]
      simp
    · intro w hw
      obtain ⟨-, ⟨⟩⟩ := Option.ite_none_right_eq_some.1 hw
      exact iff_of_false ParseState.noConfusion hno
  · have hcut : BehindAddress (address ++ 44 :: ports) ports := ⟨address, hcount, rfl⟩
    have hports {P : CText → Prop} :
        (∃ ports', BehindAddress (address ++ 44 :: ports) ports' ∧ P ports') ↔ P ports := by
      constructor
      · rintro ⟨ports', hcut', hP⟩
        rwa [hcut.unique hcut']
      · exact fun hP => ⟨ports, hcut, hP⟩
    have hscan := portScan_cut hcount ports
    simp only [hports, addressOverruns_of_cut hcount]
    split_ifs at hscan with hroom
    · obtain ⟨r, hrest, hnone, hsome⟩ :=
        portScan_numbers ports (v := portAddressed address) rfl rfl
      exact ⟨r, hscan.trans hrest, hnone.trans (or_iff_right (by omega)).symm, hsome⟩
    · exact ⟨none, hscan, iff_of_true rfl (Or.inl (by omega)), by rintro w ⟨⟩⟩

/-- **What the turns over a text lead to**: the parser gives up, or it has reached its end, or it is
still running. -/
theorem portScan_outcome (text : CText) :
    ∃ r, portScan text portStart = .ok r ∧ (r = none ↔ Overlong text) ∧
      ∀ w, r = some w → (w.state = .parseEnd ↔ Closed text) := by
  by_cases hopen : 40 ∈ text
  · obtain ⟨before, body, rfl, hbefore⟩ := List.eq_append_cons_of_mem hopen
    have hbehind : Behind (before ++ 40 :: body) body := ⟨before, hbefore, rfl⟩
    obtain ⟨r, hscan, hnone, hsome⟩ := portScan_body body
    refine ⟨r, (portScan_behind hbehind).trans hscan, hnone.trans ?_, fun w hw =>
      (hsome w hw).trans ?_⟩
    · constructor
      · exact fun h => ⟨body, hbehind, h⟩
      · rintro ⟨body', hbehind', h⟩
        rwa [hbehind.unique hbehind']
    · constructor
      · rintro ⟨ports, hcut, hclose⟩
        exact ⟨body, ports, hbehind, hcut, hclose⟩
      · rintro ⟨body', ports, hbehind', hcut, hclose⟩
        rw [hbehind.unique hbehind']
        exact ⟨ports, hcut, hclose⟩
  · have hno (body : CText) : ¬ Behind text body := by
      rintro ⟨before, -, rfl⟩
      exact hopen (by simp)
    refine ⟨_, portScan_parseStart rfl hopen, ?_, ?_⟩
    · exact iff_of_false (Option.some_ne_none _) fun ⟨body, hbehind, _⟩ => hno body hbehind
    · rintro w ⟨⟩
      exact iff_of_false ParseState.noConfusion fun ⟨body, _, hbehind, _⟩ => hno body hbehind

/-! ### Where the loop ends -/

section Loop

variable {cs : List UInt8} {v w : PortParse}

/-- The loop behind a turn. -/
theorem portLoop_cons_some {c : UInt8} (hrun : v.state ≠ .parseEnd)
    (h : portStep c v = .ok (some w)) (memory : List UInt8) :
    portLoop (c :: memory) v = portLoop memory w := by
  rw [portLoop, if_pos (Or.inr hrun), h, ok_bind]

/-- A parser that is at its end stays there. -/
theorem running_of_scan (h : portScan cs v = .ok (some w)) (hw : w.state ≠ .parseEnd) :
    v.state ≠ .parseEnd := by
  intro hv
  rw [portScan_parseEnd hv] at h
  cases h
  exact hw hv

/-- **The loop of a parser that is still running** goes on behind the text, whatever it holds. -/
theorem portLoop_of_running (h : portScan cs v = .ok (some w)) (hw : w.state ≠ .parseEnd)
    (memory : List UInt8) : portLoop (cs ++ memory) v = portLoop memory w := by
  induction cs generalizing v with
  | nil => cases h; rfl
  | cons c cs ih =>
      have hrun := running_of_scan h hw
      rw [portScan] at h
      obtain ⟨next, hstep, hrest⟩ := bind_eq_ok.1 h
      cases next with
      | none => cases hrest
      | some u => rw [List.cons_append, portLoop_cons_some hrun hstep, ih hrest]

/-- **The loop of a parser at its end** stops at the NUL behind the text, or at one inside it. -/
theorem portLoop_of_parseEnd (h : portScan cs v = .ok (some w)) (hw : w.state = .parseEnd)
    (memory : List UInt8) : portLoop (cs ++ 0 :: memory) v = .ok (some w) := by
  induction cs generalizing v with
  | nil =>
      cases h
      rw [List.nil_append, portLoop, if_neg (by simp [hw])]
  | cons c cs ih =>
      rw [List.cons_append, portLoop]
      split_ifs with hgo
      · rw [portScan] at h
        obtain ⟨next, hstep, hrest⟩ := bind_eq_ok.1 h
        cases next with
        | none => cases hrest
        | some u =>
            rw [hstep, ok_bind]
            exact ih hrest
      · rw [not_or, not_not, not_not] at hgo
        rw [portScan_parseEnd hgo.2] at h
        cases h
        rfl

/-- **The loop of a parser that gives up** does not reach the end of the text. -/
theorem portLoop_of_none (h : portScan cs v = .ok none) (memory : List UInt8) :
    portLoop (cs ++ memory) v = .ok none := by
  induction cs generalizing v with
  | nil => cases h
  | cons c cs ih =>
      have hrun : v.state ≠ .parseEnd := by
        intro hv
        rw [portScan_parseEnd hv] at h
        cases h
      rw [portScan] at h
      obtain ⟨next, hstep, hrest⟩ := bind_eq_ok.1 h
      rw [List.cons_append]
      cases next with
      | none => rw [portLoop, if_pos (Or.inr hrun), hstep, ok_bind]
      | some u => rw [portLoop_cons_some hrun hstep, ih hrest]

end Loop

end Wsn
