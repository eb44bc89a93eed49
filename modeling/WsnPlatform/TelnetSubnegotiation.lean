/-
**The subnegotiations of libtelnet.**

When a subnegotiation has been received, libtelnet hands its bytes to the event handler, and then
takes them apart for four kinds of options.  For `ENVIRON` and `MSSP` it writes the strings that it
finds into the buffer that it reads, each with a NUL behind it.

A function that accesses the buffer outside the bytes received is `none`.

Main definitions:

* `environTelnet`, `msspTelnet`, `zmpTelnet`, `ttypeTelnet`, `Telnet.subnegotiate` — the functions
  of the source;
* `environVars` — the variables that the bytes of `ENVIRON` spell, `encodeEnvironVar` — the bytes
  that spell a variable.

Main results:

* `environTelnet_isSome` — `ENVIRON` is taken apart within the bytes received, whatever they are;
* `environEntries_spec` — what is taken apart in place is what the bytes spell;
* `environVars_encode` — what was encoded is read back.
-/

import WsnPlatform.InPlace
import WsnPlatform.TelnetOptions

set_option relaxedAutoImplicit false
set_option autoImplicit false

namespace Wsn

open InPlace

/-! ### The options -/

/-- `TELNET_TELOPT_TTYPE`. -/
def teloptTtype : UInt8 := 24

/-- `TELNET_TELOPT_ENVIRON`. -/
def teloptEnviron : UInt8 := 36

/-- `TELNET_TELOPT_NEW_ENVIRON`. -/
def teloptNewEnviron : UInt8 := 39

/-- `TELNET_TELOPT_MSSP`. -/
def teloptMssp : UInt8 := 70

/-- `TELNET_TELOPT_ZMP`. -/
def teloptZmp : UInt8 := 93

/-- `TELNET_TTYPE_IS`. -/
def ttypeIs : UInt8 := 0

/-- `TELNET_TTYPE_SEND`. -/
def ttypeSend : UInt8 := 1

/-- `TELNET_ENVIRON_IS`. -/
def environIs : UInt8 := 0

/-- `TELNET_ENVIRON_SEND`. -/
def environSend : UInt8 := 1

/-- `TELNET_ENVIRON_INFO`. -/
def environInfo : UInt8 := 2

/-- `TELNET_ENVIRON_VAR`. -/
def environVar : UInt8 := 0

/-- `TELNET_ENVIRON_VALUE`. -/
def environValue : UInt8 := 1

/-- `TELNET_ENVIRON_ESC`. -/
def environEsc : UInt8 := 2

/-- `TELNET_ENVIRON_USERVAR`. -/
def environUservar : UInt8 := 3

/-- `TELNET_MSSP_VAR`. -/
def msspVar : UInt8 := 1

/-- `TELNET_MSSP_VAL`. -/
def msspVal : UInt8 := 2

/-! ### `ENVIRON` -/

/-- A byte with which a variable starts. -/
def startsVar (b : UInt8) : Bool := b = environVar ∨ b = environUservar

/-- A byte at which a name ends. -/
def endsName (b : UInt8) : Bool := startsVar b ∨ b = environValue

/-- The loop that counts the variables. -/
def countVars : List UInt8 → ℕ
  | [] => 0
  | [b] => if startsVar b then 1 else 0
  | b :: x :: l =>
      if startsVar b then countVars (x :: l) + 1
      else if b = environEsc then countVars l
      else countVars (x :: l)

/-- The loops that copy a name or a value, without its escapes. -/
def environScan (stops : UInt8 → Bool) : ℕ → Cursor UInt8 → Option (Cursor UInt8)
  | 0, _ => none
  | fuel + 1, c =>
      match c.peek with
      | none => some c
      | some b =>
          if stops b then some c
          else do
            let c := if b = environEsc then c.skip else c
            let x ← c.peek
            let c ← c.skip.put x
            environScan stops fuel c

/-- The string that a pointer into the buffer leads to. -/
def stringAt (buffer : List UInt8) (place : ℕ) : CText := textOf (buffer.drop place)

/-- An entry of the array: the type, and where its strings start. -/
structure EnvironSlots where
  type : UInt8
  var : ℕ
  value : Option ℕ

/-- The strings of an entry; a value that was not given is empty. -/
def EnvironSlots.resolve (mem : List UInt8) (s : EnvironSlots) : EnvironValue :=
  ⟨s.type, stringAt mem s.var, s.value.elim [] (stringAt mem)⟩

/-- The value of a variable, if the cursor is at one. -/
def environEntryValue (fuel : ℕ) (c : Cursor UInt8) : Option (Option ℕ × Cursor UInt8) :=
  if c.peek = some environValue then do
    let c' ← environScan startsVar fuel c.skip
    let c'' ← c'.put 0
    some (some c.write, c'')
  else some (none, c)

/-- One turn of the loop over the variables. -/
def environEntry (fuel : ℕ) (c : Cursor UInt8) : Option (EnvironSlots × Cursor UInt8) := do
  let type ← c.peek
  let c' ← environScan endsName fuel c.skip
  let c'' ← c'.put 0
  let r ← environEntryValue fuel c''
  some (⟨type, c.write, r.1⟩, r.2)

/-- The loop over the variables; `count` are left. -/
def environEntries (fuel : ℕ) : ℕ → Cursor UInt8 → Option (List EnvironSlots × Cursor UInt8)
  | 0, c => some ([], c)
  | count + 1, c => do
      let (s, c) ← environEntry fuel c
      let (slots, c) ← environEntries fuel count c
      some (s :: slots, c)

/-- A warning about a subnegotiation. -/
def subnegWarning (type : UInt8) (what : String) : TelnetEvent :=
  .warning s!"telopt {type.toNat} subneg {what}"

/-- The warning of `calloc`. -/
def callocFailed : TelnetEvent := .warning ("calloc() failed: " ++ strerrorNomem)

/-- `telnet` has asked for memory. -/
def Telnet.alloc (telnet : Telnet) : Telnet := { telnet with allocs := telnet.allocs + 1 }

/-- `_environ_telnet` behind its checks. -/
def environArguments (mem : ℕ → Bool) (telnet : Telnet) (cmd : UInt8) (args : List UInt8) :
    Option (Telnet × List TelnetEvent × Bool) :=
  if mem telnet.allocs = false then some (telnet.alloc, [callocFailed], false)
  else do
    let (slots, c) ← environEntries (telnet.buffer.length + 1) (countVars args) ⟨telnet.buffer, 1, 0⟩
    some ({ telnet.alloc with buffer := c.mem },
      [.environ cmd (slots.map (EnvironSlots.resolve c.mem))], true)

/-- **`_environ_telnet`**: the state, the events, and whether the result is not zero. -/
def environTelnet (mem : ℕ → Bool) (telnet : Telnet) (type : UInt8) :
    Option (Telnet × List TelnetEvent × Bool) :=
  match telnet.buffer with
  | [] => some (telnet, [], false)
  | cmd :: args =>
      if cmd ≠ environSend ∧ cmd ≠ environIs ∧ cmd ≠ environInfo then
        some (telnet, [subnegWarning type "has invalid command"], false)
      else
        match args with
        | [] => some (telnet, [.environ cmd []], true)
        | kind :: _ =>
            if startsVar kind = false then
              some (telnet, [subnegWarning type "missing variable type"], false)
            else if args.getLast? = some environEsc then
              some (telnet, [subnegWarning type "ends with ESC"], false)
            else environArguments mem telnet cmd args

/-! ### `MSSP`, `ZMP` and `TERMINAL-TYPE` -/

/-- A byte at which a text of `MSSP` ends. -/
def endsMssp (b : UInt8) : Bool := b = msspVar ∨ b = msspVal

/-- The loop of `_mssp_telnet` that copies a text. -/
def msspScan : ℕ → Cursor UInt8 → Option (Cursor UInt8)
  | 0, _ => none
  | fuel + 1, c =>
      match c.peek with
      | none => some c
      | some b =>
          if endsMssp b then some c
          else do
            let c ← c.skip.put b
            msspScan fuel c

/-- What the outer loop of `_mssp_telnet` comes to: the pairs, the buffer, and whether the byte
behind those received was read; or a text has neither a name nor a value in front of it. -/
inductive MsspOutcome
  | pairs (values : List (ℕ × ℕ)) (mem : List UInt8) (behind : Bool)
  | invalid (mem : List UInt8)

/-- A text is stored as the name, or as a value of the name. -/
def msspStore (nextType : Option UInt8) (last : ℕ) (var : Option ℕ) (values : List (ℕ × ℕ)) :
    Option (Option ℕ × List (ℕ × ℕ)) :=
  if nextType = some msspVar then some (some last, values)
  else if nextType = some msspVal then
    var.map fun name => (some name, values ++ [(name, last)])
  else none

/-- The outer loop of `_mssp_telnet`.  `nextType` is `none` when it was read behind the bytes
received. -/
def msspLoop : ℕ → Cursor UInt8 → Option UInt8 → Option ℕ → List (ℕ × ℕ) → Bool →
    Option MsspOutcome
  | 0, _, _, _, _, _ => none
  | fuel + 1, c, nextType, var, values, behind =>
      if c.mem.length ≤ c.read then some (.pairs values c.mem behind)
      else do
        let c' ← msspScan (c.mem.length + 1) c
        let c'' ← c'.put 0
        match msspStore nextType c.write var values with
        | none => some (.invalid c''.mem)
        | some r => msspLoop fuel c''.skip c''.peek r.1 r.2 (behind || c''.peek.isNone)

/-- The entries of the array: those that were filled, and the others. -/
def msspValues (count : ℕ) (mem : List UInt8) (values : List (ℕ × ℕ)) :
    List (Option (CText × CText)) :=
  values.map (fun v => some (stringAt mem v.1, stringAt mem v.2)) ++
    List.replicate (count - values.length) none

/-- The events that an outcome leads to, and the buffer. -/
def MsspOutcome.finish (telnet : Telnet) (count : ℕ) : MsspOutcome → Telnet × List TelnetEvent
  | .pairs values mem _ => ({ telnet with buffer := mem }, [.mssp (msspValues count mem values)])
  | .invalid mem =>
      ({ telnet with buffer := mem }, [.warning "invalid MSSP subnegotiation data"])

/-- **`_mssp_telnet`**, whose result is always zero. -/
def msspTelnet (mem : ℕ → Bool) (telnet : Telnet) : Option (Telnet × List TelnetEvent) :=
  match telnet.buffer with
  | [] => some (telnet, [])
  | first :: _ =>
      if first ≠ msspVar then
        some (telnet, [.warning "MSSP subnegotiation has invalid data"])
      else if mem telnet.allocs = false then some (telnet.alloc, [callocFailed])
      else do
        let outcome ← msspLoop (telnet.buffer.length + 1) ⟨telnet.buffer, 1, 0⟩ (some first) none []
          false
        some (outcome.finish telnet.alloc (telnet.buffer.count msspVal))

/-- The arguments of `ZMP`: `strlen` finds each of them. -/
def zmpArguments : ℕ → List UInt8 → List CText
  | 0, _ => []
  | fuel + 1, l =>
      if l = [] then []
      else textOf l :: zmpArguments fuel (l.drop ((textOf l).length + 1))

/-- **`_zmp_telnet`**, whose result is always zero. -/
def zmpTelnet (mem : ℕ → Bool) (telnet : Telnet) : Telnet × List TelnetEvent :=
  if telnet.buffer.getLast? ≠ some 0 then (telnet, [.warning "incomplete ZMP frame"])
  else if mem telnet.allocs = false then (telnet.alloc, [callocFailed])
  else (telnet.alloc, [.zmp (zmpArguments telnet.buffer.length telnet.buffer)])

/-- **`_ttype_telnet`**, whose result is always zero. -/
def ttypeTelnet (mem : ℕ → Bool) (telnet : Telnet) : Telnet × List TelnetEvent :=
  match telnet.buffer with
  | [] => (telnet, [.warning "incomplete TERMINAL-TYPE request"])
  | cmd :: name =>
      if cmd ≠ ttypeIs ∧ cmd ≠ ttypeSend then
        (telnet, [.warning "TERMINAL-TYPE request has invalid type"])
      else if cmd = ttypeIs then
        if mem telnet.allocs = false then
          (telnet.alloc, [.warning ("malloc() failed: " ++ strerrorNomem)])
        else (telnet.alloc, [.ttype (some (textOf name))])
      else (telnet, [.ttype none])

/-! ### The dispatch -/

/-- What `_subnegotiate` does for the option, behind the event for the subnegotiation.  The zero is
what its other results are. -/
def Telnet.subnegotiateOption (mem : ℕ → Bool) (telnet : Telnet) :
    Option (Telnet × List TelnetEvent × Bool) :=
  if telnet.sbTelopt = teloptZmp then
    some ((zmpTelnet mem telnet).1, (zmpTelnet mem telnet).2, false)
  else if telnet.sbTelopt = teloptTtype then
    some ((ttypeTelnet mem telnet).1, (ttypeTelnet mem telnet).2, false)
  else if telnet.sbTelopt = teloptEnviron ∨ telnet.sbTelopt = teloptNewEnviron then
    environTelnet mem telnet telnet.sbTelopt
  else if telnet.sbTelopt = teloptMssp then
    (msspTelnet mem telnet).map fun r => (r.1, r.2, false)
  else some (telnet, [], false)

/-- **`_subnegotiate`**: the state, the events, and whether the result is not zero. -/
def Telnet.subnegotiate (mem : ℕ → Bool) (telnet : Telnet) : Telnet × List TelnetEvent × Bool :=
  -- there always is a result: `subnegotiateOption_isSome`
  let r := (telnet.subnegotiateOption mem).getD (telnet, [], false)
  (r.1, .subnegotiation telnet.sbTelopt telnet.buffer :: r.2.1, r.2.2)

/-! ### The buffer keeps its length -/

theorem length_environScan {stops : UInt8 → Bool} {fuel : ℕ} {c c' : Cursor UInt8}
    (h : environScan stops fuel c = some c') : c'.mem.length = c.mem.length := by
  induction fuel generalizing c with
  | zero => cases h
  | succ fuel ih =>
      rw [environScan] at h
      split at h
      · cases h; rfl
      · split at h
        · cases h; rfl
        · simp only [Option.bind_eq_bind, Option.bind_eq_some_iff] at h
          obtain ⟨x, -, c₁, hput, hscan⟩ := h
          rw [ih hscan, Cursor.length_put hput]
          split <;> rfl

theorem length_environEntries {fuel count : ℕ} {c : Cursor UInt8}
    {r : List EnvironSlots × Cursor UInt8} (h : environEntries fuel count c = some r) :
    r.2.mem.length = c.mem.length := by
  induction count generalizing c r with
  | zero => cases h; rfl
  | succ count ih =>
      simp only [environEntries, environEntry, environEntryValue, Option.bind_eq_bind,
        Option.bind_eq_some_iff] at h
      obtain ⟨⟨s, c₁⟩, ⟨type, -, c₂, hscan, c₃, hput, ⟨places, c₄⟩, hvalue, hs⟩, ⟨slots, c₅⟩, hrest,
        hr⟩ := h
      cases hs
      cases hr
      have hname : c₃.mem.length = c.mem.length := by
        rw [Cursor.length_put hput, length_environScan hscan]
        rfl
      have hvalue' : c₄.mem.length = c₃.mem.length := by
        split at hvalue
        · simp only [Option.bind_eq_some_iff] at hvalue
          obtain ⟨c₆, hscan', c₇, hput', hend⟩ := hvalue
          cases hend
          rw [Cursor.length_put hput', length_environScan hscan']
          rfl
        · cases hvalue; rfl
      exact (ih hrest).trans (hvalue'.trans hname)

theorem length_msspScan {fuel : ℕ} {c c' : Cursor UInt8} (h : msspScan fuel c = some c') :
    c'.mem.length = c.mem.length := by
  induction fuel generalizing c with
  | zero => cases h
  | succ fuel ih =>
      rw [msspScan] at h
      split at h
      · cases h; rfl
      · split at h
        · cases h; rfl
        · simp only [Option.bind_eq_bind, Option.bind_eq_some_iff] at h
          obtain ⟨c₁, hput, hscan⟩ := h
          rw [ih hscan, Cursor.length_put hput]
          rfl

/-- The buffer that an outcome leaves. -/
def MsspOutcome.mem : MsspOutcome → List UInt8
  | .pairs _ mem _ => mem
  | .invalid mem => mem

theorem length_msspLoop {fuel : ℕ} {c : Cursor UInt8} {nextType : Option UInt8}
    {var : Option ℕ} {values : List (ℕ × ℕ)} {behind : Bool} {r : MsspOutcome}
    (h : msspLoop fuel c nextType var values behind = some r) : r.mem.length = c.mem.length := by
  induction fuel generalizing c nextType var values behind with
  | zero => cases h
  | succ fuel ih =>
      rw [msspLoop] at h
      split at h
      · cases h; rfl
      · simp only [Option.bind_eq_bind, Option.bind_eq_some_iff] at h
        obtain ⟨c₁, hscan, c₂, hput, hstore⟩ := h
        have hlen : c₂.mem.length = c.mem.length := by
          rw [Cursor.length_put hput, length_msspScan hscan]
        split at hstore
        · cases hstore
          exact hlen
        · exact (ih hstore).trans hlen

/-! ### What the bytes of `ENVIRON` spell -/

/-- A text up to a byte at which it stops, without its escapes, and what comes behind it. -/
def environText (stops : UInt8 → Bool) : List UInt8 → List UInt8 × List UInt8
  | [] => ([], [])
  | [b] => if stops b then ([], [b]) else ([b], [])
  | b :: x :: l =>
      if stops b then ([], b :: x :: l)
      else if b = environEsc then (x :: (environText stops l).1, (environText stops l).2)
      else (b :: (environText stops (x :: l)).1, (environText stops (x :: l)).2)

/-- The value behind a name, if there is one. -/
def environTextValue : List UInt8 → Option (List UInt8) × List UInt8
  | [] => (none, [])
  | b :: l =>
      if b = environValue then (some (environText startsVar l).1, (environText startsVar l).2)
      else (none, b :: l)

/-- **The variables that the bytes spell**, `count` of them.  A string ends at the first NUL. -/
def environVars : ℕ → List UInt8 → List EnvironValue
  | 0, _ => []
  | _, [] => []
  | count + 1, type :: l =>
      let name := environText endsName l
      let value := environTextValue name.2
      ⟨type, textOf name.1, textOf (value.1.getD [])⟩ :: environVars count value.2

/-- The bytes do not end with an escape. -/
def NoDangling (l : List UInt8) : Prop := l.getLast? ≠ some environEsc

theorem NoDangling.tail {b : UInt8} {l : List UInt8} (h : NoDangling (b :: l)) : NoDangling l := by
  cases l with
  | nil => simp [NoDangling]
  | cons x l => simpa [NoDangling, List.getLast?_cons_cons] using h

theorem noDangling_environText {stops : UInt8 → Bool} {l : List UInt8} (h : NoDangling l) :
    NoDangling (environText stops l).2 := by
  induction l using environText.induct stops with
  | case1 => exact h
  | case2 b hb => simpa [environText, hb] using h
  | case3 b hb => simp [environText, hb, NoDangling]
  | case4 b x l hb => simpa [environText, hb] using h
  | case5 x l hb ih =>
      rw [environText, if_neg hb, if_pos rfl]
      exact ih h.tail.tail
  | case6 b x l hb hesc ih =>
      rw [environText, if_neg hb, if_neg hesc]
      exact ih h.tail

section

variable {stops : UInt8 → Bool} {c : Cursor UInt8} {done : List UInt8} {gap : ℕ}

theorem environScan_nil (fuel : ℕ) (h : c.At done [] gap) :
    environScan stops (fuel + 1) c = some c := by
  rw [environScan, h.peek]
  rfl

theorem environScan_stop {b : UInt8} {rest : List UInt8} (fuel : ℕ) (h : c.At done (b :: rest) gap)
    (hb : stops b = true) : environScan stops (fuel + 1) c = some c := by
  rw [environScan, h.peek]
  exact if_pos hb

/-- A byte that is not an escape is copied. -/
theorem environScan_copy {b : UInt8} {rest : List UInt8} (fuel : ℕ) (h : c.At done (b :: rest) gap)
    (hb : ¬ stops b = true) (hesc : b ≠ environEsc) :
    ∃ c', environScan stops (fuel + 1) c = environScan stops fuel c' ∧
      c'.At (done ++ [b]) rest gap := by
  obtain ⟨c', hput, hat⟩ := h.skip.put b
  refine ⟨c', ?_, hat⟩
  rw [environScan, h.peek]
  simp [hb, hesc, h.peek, hput]

/-- Of an escape, the byte behind it is copied. -/
theorem environScan_escape {x : UInt8} {rest : List UInt8} (fuel : ℕ)
    (h : c.At done (environEsc :: x :: rest) gap) (hb : ¬ stops environEsc = true) :
    ∃ c', environScan stops (fuel + 1) c = environScan stops fuel c' ∧
      c'.At (done ++ [x]) rest (gap + 1) := by
  obtain ⟨c', hput, hat⟩ := h.skip.skip.put x
  refine ⟨c', ?_, hat⟩
  rw [environScan, h.peek]
  simp [hb, h.skip.peek, hput]

/-- **A text is copied in place.** -/
theorem environScan_eq {rest : List UInt8} (hdangling : NoDangling rest) {fuel : ℕ}
    (hfuel : rest.length < fuel) (h : c.At done rest gap) :
    ∃ c' gap', environScan stops fuel c = some c' ∧ gap ≤ gap' ∧
      c'.At (done ++ (environText stops rest).1) (environText stops rest).2 gap' := by
  obtain ⟨fuel, rfl⟩ : ∃ f, fuel = f + 1 := ⟨fuel - 1, by omega⟩
  induction rest using environText.induct stops generalizing fuel c done gap with
  | case1 => exact ⟨c, gap, environScan_nil fuel h, le_refl gap, by simpa [environText] using h⟩
  | case2 b hb =>
      exact ⟨c, gap, environScan_stop fuel h hb, le_refl gap, by simpa [environText, hb] using h⟩
  | case3 b hb =>
      have hesc : b ≠ environEsc := by
        rintro rfl
        exact hdangling rfl
      obtain ⟨c', hscan, hat⟩ := environScan_copy fuel h hb hesc
      obtain ⟨fuel, rfl⟩ : ∃ f, fuel = f + 1 := ⟨fuel - 1, by simp at hfuel; omega⟩
      refine ⟨c', gap, hscan.trans (environScan_nil fuel hat), le_refl gap, ?_⟩
      simpa [environText, hb] using hat
  | case4 b x l hb =>
      exact ⟨c, gap, environScan_stop fuel h hb, le_refl gap, by simpa [environText, hb] using h⟩
  | case5 x l hb ih =>
      obtain ⟨c', hscan, hat⟩ := environScan_escape fuel h hb
      simp only [List.length_cons] at hfuel
      obtain ⟨fuel, rfl⟩ : ∃ f, fuel = f + 1 := ⟨fuel - 1, by omega⟩
      obtain ⟨c'', gap', hscan', hgap, hat'⟩ := ih hdangling.tail.tail hat fuel (by omega)
      refine ⟨c'', gap', hscan.trans hscan', by omega, ?_⟩
      rw [environText, if_neg hb, if_pos rfl]
      simpa using hat'
  | case6 b x l hb hesc ih =>
      obtain ⟨c', hscan, hat⟩ := environScan_copy fuel h hb hesc
      simp only [List.length_cons] at hfuel
      obtain ⟨fuel, rfl⟩ : ∃ f, fuel = f + 1 := ⟨fuel - 1, by omega⟩
      obtain ⟨c'', gap', hscan', hgap, hat'⟩ := ih hdangling.tail hat fuel (by simp; omega)
      refine ⟨c'', gap', hscan.trans hscan', hgap, ?_⟩
      rw [environText, if_neg hb, if_neg hesc]
      simpa using hat'

/-- A text that was put into the buffer with a NUL behind it. -/
theorem stringAt_done (done text after : List UInt8) :
    stringAt (done ++ text ++ [0] ++ after) done.length = textOf text := by
  rw [stringAt, List.append_assoc, List.append_assoc, List.drop_left]
  exact textOf_append_nul text after

/-- A text with a NUL behind it; it can be read there from then on. -/
theorem environScan_put {rest : List UInt8} (hdangling : NoDangling rest) {fuel : ℕ}
    (hfuel : rest.length < fuel) (h : c.At done rest (gap + 1)) :
    ∃ c' c'' gap', environScan stops fuel c = some c' ∧ c'.put 0 = some c'' ∧ gap ≤ gap' ∧
      c''.At (done ++ (environText stops rest).1 ++ [0]) (environText stops rest).2 gap' ∧
      ∀ mem, done ++ (environText stops rest).1 ++ [0] <+: mem →
        stringAt mem c.write = textOf (environText stops rest).1 := by
  obtain ⟨c', gap', hscan, hgap, hat⟩ := environScan_eq hdangling hfuel h
  obtain ⟨gap', rfl⟩ : ∃ g, gap' = g + 1 := ⟨gap' - 1, by omega⟩
  obtain ⟨c'', hput, hat'⟩ := hat.put 0
  refine ⟨c', c'', gap', hscan, hput, by omega, hat', ?_⟩
  rintro mem ⟨after, rfl⟩
  rw [h.write_eq]
  exact stringAt_done _ _ _

/-- The value of a variable is taken apart in place. -/
theorem environEntryValue_eq {rest : List UInt8} (hdangling : NoDangling rest) {fuel : ℕ}
    (hfuel : rest.length < fuel) (h : c.At done rest gap) :
    ∃ places c' gap' added, environEntryValue fuel c = some (places, c') ∧ gap ≤ gap' ∧
      c'.At (done ++ added) (environTextValue rest).2 gap' ∧
      ∀ mem, done ++ added <+: mem →
        places.elim [] (stringAt mem) = textOf ((environTextValue rest).1.getD []) := by
  cases rest with
  | nil =>
      refine ⟨none, c, gap, [], ?_, le_refl gap, by simpa [environTextValue] using h, fun _ _ => rfl⟩
      simp [environEntryValue, h.peek]
  | cons b l =>
      by_cases hb : b = environValue
      · subst hb
        obtain ⟨c', c'', gap', hscan, hput, hgap, hat, hslot⟩ := environScan_put
          hdangling.tail (Nat.lt_of_succ_lt hfuel) h.skip
        refine ⟨some c.write, c'', gap', _, ?_, hgap,
          by simpa [environTextValue] using hat, ?_⟩
        · simp [environEntryValue, h.peek, hscan, hput]
        · intro mem hmem
          rw [environTextValue, if_pos rfl]
          exact hslot mem (by simpa using hmem)
      · refine ⟨none, c, gap, [], ?_, le_refl gap, by simpa [environTextValue, hb] using h, ?_⟩
        · simp [environEntryValue, h.peek, hb]
        · intro mem _
          simp [environTextValue, hb]

theorem noDangling_environTextValue {rest : List UInt8} (h : NoDangling rest) :
    NoDangling (environTextValue rest).2 := by
  cases rest with
  | nil => exact h
  | cons b l =>
      rw [environTextValue]
      split
      · exact noDangling_environText h.tail
      · exact h

theorem length_environText_le (l : List UInt8) : (environText stops l).2.length ≤ l.length := by
  induction l using environText.induct stops with
  | case5 x l hb ih =>
      rw [environText, if_neg hb, if_pos rfl]
      exact ih.trans (by simp; omega)
  | case6 b x l hb hesc ih =>
      rw [environText, if_neg hb, if_neg hesc]
      exact ih.trans (Nat.le_succ _)
  | case4 b x l hb => simp [environText, hb]
  | case3 b hb => simp [environText, hb]
  | case2 b hb => simp [environText, hb]
  | case1 => simp [environText]

theorem length_environTextValue_le (l : List UInt8) :
    (environTextValue l).2.length ≤ l.length := by
  cases l with
  | nil => exact le_refl _
  | cons b l =>
      rw [environTextValue]
      split
      · exact (length_environText_le l).trans (Nat.le_succ _)
      · exact le_refl _

/-- **A variable is taken apart in place.** -/
theorem environEntry_eq {type : UInt8} {l : List UInt8} (hdangling : NoDangling (type :: l))
    {fuel : ℕ} (hfuel : l.length < fuel) (h : c.At done (type :: l) gap) :
    ∃ s c' gap' added, environEntry fuel c = some (s, c') ∧ gap ≤ gap' ∧
      c'.At (done ++ added) (environTextValue (environText endsName l).2).2 gap' ∧
      ∀ mem, done ++ added <+: mem → s.resolve mem = ⟨type, textOf (environText endsName l).1,
        textOf ((environTextValue (environText endsName l).2).1.getD [])⟩ := by
  obtain ⟨c', c'', gap', hscan, hput, hgap, hat, hslot⟩ := environScan_put
    hdangling.tail hfuel h.skip
  obtain ⟨places, c₃, gap₃, added, hvalue, hgap₃, hat₃, hplaces⟩ :=
    environEntryValue_eq (noDangling_environText hdangling.tail)
      ((length_environText_le l).trans_lt hfuel) hat
  refine ⟨⟨type, c.write, places⟩, c₃, gap₃,
    (environText endsName l).1 ++ [0] ++ added, ?_, by omega, by simpa using hat₃, ?_⟩
  · simp only [environEntry, h.peek, List.head?_cons, Option.bind_eq_bind, Option.bind_some, hscan,
      hput, hvalue]
  · intro mem hmem
    have hmem' : done ++ (environText endsName l).1 ++ [0] ++ added <+: mem := by simpa using hmem
    unfold EnvironSlots.resolve
    rw [hplaces mem hmem', ← hslot mem ((List.prefix_append _ _).trans hmem')]
    rfl

end

/-! ### As many variables as were counted -/

theorem countVars_of_starts {type : UInt8} {l : List UInt8} (h : startsVar type = true) :
    countVars (type :: l) = countVars l + 1 := by
  cases l with
  | nil => simp [countVars, h]
  | cons x l => simp [countVars, h]

/-- The variables counted in a text are those behind it. -/
theorem countVars_environText {stops : UInt8 → Bool} (hstops : ∀ b, startsVar b = true → stops b = true)
    (l : List UInt8) : countVars (environText stops l).2 = countVars l := by
  induction l using environText.induct stops with
  | case1 => rfl
  | case2 b hb => simp [environText, hb]
  | case3 b hb =>
      have hstart : ¬ startsVar b = true := fun hs => hb (hstops b hs)
      simp [environText, countVars, hb, hstart]
  | case4 b x l hb => simp [environText, hb]
  | case5 x l hb ih =>
      have hstart : ¬ startsVar environEsc = true := by decide
      rw [environText, if_neg hb, if_pos rfl, countVars, if_neg hstart, if_pos rfl]
      exact ih
  | case6 b x l hb hesc ih =>
      have hstart : ¬ startsVar b = true := fun hs => hb (hstops b hs)
      rw [environText, if_neg hb, if_neg hesc, countVars, if_neg hstart, if_neg hesc]
      exact ih

theorem head_environText (stops : UInt8 → Bool) (l : List UInt8) :
    ∀ b ∈ (environText stops l).2.head?, stops b = true := by
  induction l using environText.induct stops with
  | case1 => simp [environText]
  | case2 b hb => simp [environText, hb]
  | case3 b hb => simp [environText, hb]
  | case4 b x l hb => simp [environText, hb]
  | case5 x l hb ih => simpa [environText, hb] using ih
  | case6 b x l hb hesc ih => simpa [environText, hb, hesc] using ih

theorem endsName_of_starts (b : UInt8) (h : startsVar b = true) : endsName b = true := by
  simp [endsName, h]

/-- Behind a variable comes another one, or nothing. -/
theorem behind_variable (l : List UInt8) :
    countVars (environTextValue (environText endsName l).2).2 = countVars l ∧
      ∀ b ∈ (environTextValue (environText endsName l).2).2.head?, startsVar b = true := by
  have hcount := countVars_environText endsName_of_starts l
  have hhead := head_environText endsName l
  cases hrest : (environText endsName l).2 with
  | nil =>
      rw [hrest] at hcount
      exact ⟨hcount, by simp [environTextValue]⟩
  | cons b rest =>
      rw [hrest] at hcount hhead
      by_cases hb : b = environValue
      · subst hb
        rw [environTextValue, if_pos rfl]
        refine ⟨?_, head_environText startsVar rest⟩
        rw [countVars_environText (fun _ h => h), ← hcount]
        cases rest with
        | nil => decide
        | cons x rest => simp [countVars, startsVar, environValue, environVar, environUservar,
            environEsc]
      · rw [environTextValue, if_neg hb]
        have hends : endsName b = true := hhead b rfl
        refine ⟨hcount, ?_⟩
        intro x hx
        cases hx
        simpa [endsName, hb] using hends

/-- **The loop over the variables stays within the buffer, and finds what the bytes spell.** -/
theorem environEntries_spec (fuel : ℕ) {count : ℕ} {rest : List UInt8} (hcount : countVars rest = count)
    (hstarts : ∀ b ∈ rest.head?, startsVar b = true) (hdangling : NoDangling rest)
    (hfuel : rest.length < fuel) {c : Cursor UInt8} {done : List UInt8} {gap : ℕ}
    (h : c.At done rest gap) :
    ∃ slots c' added, environEntries fuel count c = some (slots, c') ∧
      done ++ added <+: c'.mem ∧
      ∀ mem, done ++ added <+: mem →
        slots.map (EnvironSlots.resolve mem) = environVars count rest := by
  induction count generalizing rest c done gap with
  | zero =>
      refine ⟨[], c, [], rfl, ?_, fun _ _ => rfl⟩
      rw [List.append_nil, ← h.take]
      exact List.take_prefix _ _
  | succ count ih =>
      cases rest with
      | nil => simp [countVars] at hcount
      | cons type l =>
          have htype : startsVar type = true := hstarts type rfl
          rw [countVars_of_starts htype, Nat.add_right_cancel_iff] at hcount
          simp only [List.length_cons] at hfuel
          obtain ⟨s, c₁, gap₁, added₁, hentry, -, hat₁, hs⟩ :=
            environEntry_eq hdangling (Nat.lt_of_succ_lt hfuel) h
          obtain ⟨hcount₁, hstarts₁⟩ := behind_variable l
          have hlen := (length_environTextValue_le (environText endsName l).2).trans
            (length_environText_le l)
          obtain ⟨slots, c₂, added₂, hentries, hmem₂, hslots⟩ := ih (hcount₁.trans hcount) hstarts₁
            (noDangling_environTextValue (noDangling_environText hdangling.tail)) (by omega) hat₁
          rw [List.append_assoc] at hmem₂ hslots
          refine ⟨s :: slots, c₂, added₁ ++ added₂, ?_, hmem₂, ?_⟩
          · simp [environEntries, hentry, hentries]
          · intro mem hmem
            rw [List.map_cons, hslots mem hmem, environVars]
            rw [hs mem ((List.prefix_append _ added₂).trans (by simpa using hmem))]

/-- `ENVIRON` is taken apart within the bytes received, whatever they are. -/
theorem environTelnet_isSome (mem : ℕ → Bool) (telnet : Telnet) (type : UInt8) :
    (environTelnet mem telnet type).isSome := by
  unfold environTelnet
  cases hbuffer : telnet.buffer with
  | nil => rfl
  | cons cmd args =>
      dsimp only
      split
      · rfl
      · cases args with
        | nil => rfl
        | cons kind args =>
            dsimp only
            split
            · rfl
            · next hkind =>
                split
                · rfl
                · next hlast =>
                    unfold environArguments
                    split
                    · rfl
                    · have hat : Cursor.At (⟨telnet.buffer, 1, 0⟩ : Cursor UInt8) [] (kind :: args) 1 :=
                        ⟨rfl, by rw [hbuffer]; rfl, rfl, by rw [hbuffer]; simp⟩
                      obtain ⟨slots, c', added, hentries, -, -⟩ := environEntries_spec
                        (telnet.buffer.length + 1) rfl (by simpa using hkind) hlast
                        (by rw [hbuffer]; simp) hat
                      simp [hentries]

/-- What `_environ_telnet` hands on of variables that are well formed. -/
theorem environTelnet_eq {mem : ℕ → Bool} {telnet : Telnet} {cmd kind : UInt8} {args : List UInt8}
    (type : UInt8) (hbuffer : telnet.buffer = cmd :: kind :: args)
    (hcmd : cmd = environSend ∨ cmd = environIs ∨ cmd = environInfo)
    (hkind : startsVar kind = true) (hlast : NoDangling (kind :: args))
    (hmem : mem telnet.allocs = true) :
    ∃ telnet', environTelnet mem telnet type = some (telnet',
      [.environ cmd (environVars (countVars (kind :: args)) (kind :: args))], true) := by
  have hat : Cursor.At (⟨telnet.buffer, 1, 0⟩ : Cursor UInt8) [] (kind :: args) 1 :=
    ⟨rfl, by rw [hbuffer]; rfl, rfl, by rw [hbuffer]; simp⟩
  obtain ⟨slots, c', added, hentries, hprefix, hslots⟩ := environEntries_spec
    (telnet.buffer.length + 1) rfl (by simpa using hkind) hlast
    (by rw [hbuffer]; simp) hat
  refine ⟨{ telnet.alloc with buffer := c'.mem }, ?_⟩
  have hvalid : ¬ (cmd ≠ environSend ∧ cmd ≠ environIs ∧ cmd ≠ environInfo) := by tauto
  unfold environTelnet
  rw [hbuffer]
  dsimp only
  rw [if_neg hvalid, if_neg (by simp [hkind]), if_neg hlast, environArguments,
    if_neg (by simp [hmem]), ← hslots c'.mem hprefix]
  simp [hentries]

/-! ### Reading back what was encoded -/

/-- A text with an escape in front of each byte that would be taken for a marker. -/
def escapeEnviron (text : List UInt8) : List UInt8 :=
  text.flatMap fun b => if b ≤ environUservar then [environEsc, b] else [b]

/-- The bytes of a variable. -/
def encodeEnvironVar (v : EnvironValue) : List UInt8 :=
  v.type :: (escapeEnviron v.var ++ environValue :: escapeEnviron v.value)

/-- The stops are markers other than the escape. -/
def StopsAtMarkers (stops : UInt8 → Bool) : Prop :=
  stops environEsc = false ∧ ∀ b, stops b = true → b ≤ environUservar

theorem stopsAtMarkers_startsVar : StopsAtMarkers startsVar := by
  refine ⟨by decide, ?_⟩
  intro b hb
  rcases (by simpa [startsVar] using hb : b = environVar ∨ b = environUservar) with rfl | rfl <;>
    decide

theorem stopsAtMarkers_endsName : StopsAtMarkers endsName := by
  refine ⟨by decide, ?_⟩
  intro b hb
  rcases (by simpa [endsName] using hb : startsVar b = true ∨ b = environValue) with hb | rfl
  · exact stopsAtMarkers_startsVar.2 b hb
  · decide

theorem environText_plain {stops : UInt8 → Bool} {b : UInt8} (l : List UInt8)
    (hb : stops b = false) (hesc : b ≠ environEsc) :
    environText stops (b :: l) = (b :: (environText stops l).1, (environText stops l).2) := by
  cases l with
  | nil => simp [environText, hb]
  | cons x l => simp [environText, hb, hesc]

theorem environText_stop {stops : UInt8 → Bool} {b : UInt8} (l : List UInt8)
    (hb : stops b = true) : environText stops (b :: l) = ([], b :: l) := by
  cases l with
  | nil => simp [environText, hb]
  | cons x l => simp [environText, hb]

theorem environText_escape {stops : UInt8 → Bool} (hstops : StopsAtMarkers stops)
    (text : List UInt8) {rest : List UInt8} (hrest : ∀ b ∈ rest.head?, stops b = true) :
    environText stops (escapeEnviron text ++ rest) = (text, rest) := by
  induction text with
  | nil =>
      cases rest with
      | nil => rfl
      | cons b l => exact environText_stop l (hrest b rfl)
  | cons b text ih =>
      have hsplit : escapeEnviron (b :: text) ++ rest =
          (if b ≤ environUservar then [environEsc, b] else [b]) ++ (escapeEnviron text ++ rest) := by
        simp [escapeEnviron]
      rw [hsplit]
      split
      · rw [List.cons_append, List.cons_append, List.nil_append, environText,
          if_neg (by simp [hstops.1]), if_pos rfl, ih]
      · next hb =>
          have hstop : stops b = false := by
            by_contra hs
            exact hb (hstops.2 b (by simpa using hs))
          have hesc : b ≠ environEsc := by
            rintro rfl
            exact hb (by decide)
          rw [List.cons_append, List.nil_append, environText_plain _ hstop hesc, ih]

/-- A variable with its strings cut off at the first NUL. -/
def EnvironValue.cut (v : EnvironValue) : EnvironValue := ⟨v.type, textOf v.var, textOf v.value⟩

/-- **What was encoded is read back**, up to the first NUL of each string. -/
theorem environVars_encode {vs : List EnvironValue}
    (htype : ∀ v ∈ vs, startsVar v.type = true) :
    countVars (vs.flatMap encodeEnvironVar) = vs.length ∧
      environVars vs.length (vs.flatMap encodeEnvironVar) = vs.map EnvironValue.cut := by
  induction vs with
  | nil => exact ⟨rfl, rfl⟩
  | cons v vs ih =>
      obtain ⟨hcount, hvars⟩ := ih fun w hw => htype w (List.mem_cons_of_mem v hw)
      have hrest : ∀ b ∈ (vs.flatMap encodeEnvironVar).head?, startsVar b = true := by
        cases vs with
        | nil => simp
        | cons w vs => simpa [encodeEnvironVar] using htype w (by simp)
      have hbytes : (v :: vs).flatMap encodeEnvironVar = v.type :: (escapeEnviron v.var ++
          environValue :: (escapeEnviron v.value ++ vs.flatMap encodeEnvironVar)) := by
        simp [encodeEnvironVar]
      have hends : ∀ b ∈ (environValue ::
          (escapeEnviron v.value ++ vs.flatMap encodeEnvironVar)).head?, endsName b = true := by
        intro b hb
        cases hb
        decide
      have hname := environText_escape stopsAtMarkers_endsName v.var hends
      have hvalue := environText_escape stopsAtMarkers_startsVar v.value hrest
      rw [hbytes, List.length_cons]
      constructor
      · rw [countVars_of_starts (htype v (by simp)), ← (behind_variable _).1, hname,
          environTextValue, if_pos rfl, hvalue, hcount]
      · rw [environVars, hname]
        simp only [environTextValue, if_true, hvalue, Option.getD_some, hvars, List.map_cons]
        rfl

end Wsn
