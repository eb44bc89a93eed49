/-
**`MSSP` and `ZMP`.**

`_mssp_telnet` cuts the bytes of a subnegotiation into names and values, and pairs each value with
the name in front of it.  Behind each text it reads the next byte to see what the next text is;
behind the last text that is a byte behind those received.  A text at the very end that is empty is
not noticed, though it was counted.

Main definitions:

* `msspRead` — the pairs that the bytes spell, `encodeMssp` — the bytes that spell names with their
  values;
* `msspReadsBehind` — the byte behind those received is read.

Main results:

* `msspTelnet_eq` — what is taken apart in place is what the bytes spell;
* `zmpArguments_zmpBytes` — the arguments of `ZMP` are read back.
-/

import WsnPlatform.TelnetSubnegotiation

set_option relaxedAutoImplicit false
set_option autoImplicit false

namespace Wsn

open InPlace

/-! ### `MSSP` -/

/-- The text up to the next marker. -/
def msspText (l : List UInt8) : List UInt8 := l.takeWhile fun b => !endsMssp b

/-- What comes behind it. -/
def msspRest (l : List UInt8) : List UInt8 := l.dropWhile fun b => !endsMssp b

theorem msspText_append_rest (l : List UInt8) : msspText l ++ msspRest l = l :=
  List.takeWhile_append_dropWhile

/-- A value, paired with the name in front of it. -/
def msspPair (type : UInt8) (var text : CText) : List (CText × CText) :=
  if type = msspVal then [(var, text)] else []

/-- Behind a text, what comes next is read if there is something. -/
def msspNext (read : UInt8 → List UInt8 → List (CText × CText)) :
    List UInt8 → List (CText × CText)
  | [] => []
  | next :: rest => read next rest

section

variable (read : UInt8 → List UInt8 → List (CText × CText))

@[simp] theorem msspNext_nil : msspNext read [] = [] := rfl

@[simp] theorem msspNext_cons (next : UInt8) (rest : List UInt8) :
    msspNext read (next :: rest) = read next rest := rfl

end

/-- **The pairs that the bytes spell**, behind a marker `type` and the name `var`.  A string ends at
the first NUL. -/
def msspRead : ℕ → UInt8 → CText → List UInt8 → List (CText × CText)
  | 0, _, _, _ => []
  | _, _, _, [] => []
  | fuel + 1, type, var, b :: l =>
      let text := textOf (msspText (b :: l))
      let var' := if type = msspVar then text else var
      msspPair type var text ++
        msspNext (fun next rest => msspRead fuel next var' rest) (msspRest (b :: l))

/-- The byte behind those received is read: a text comes last. -/
def msspReadsBehind (l : List UInt8) : Bool := l.getLast?.any fun b => !endsMssp b

/-- A text is copied in place. -/
theorem msspScan_eq {rest : List UInt8} {fuel : ℕ} (hfuel : rest.length < fuel)
    {c : Cursor UInt8} {done : List UInt8} {gap : ℕ} (h : c.At done rest gap) :
    ∃ c', msspScan fuel c = some c' ∧ c'.At (done ++ msspText rest) (msspRest rest) gap := by
  induction rest generalizing fuel c done with
  | nil =>
      obtain ⟨fuel, rfl⟩ : ∃ f, fuel = f + 1 := ⟨fuel - 1, by omega⟩
      refine ⟨c, ?_, by simpa [msspText, msspRest] using h⟩
      rw [msspScan, h.peek]
      rfl
  | cons b rest ih =>
      obtain ⟨fuel, rfl⟩ : ∃ f, fuel = f + 1 := ⟨fuel - 1, by omega⟩
      by_cases hb : endsMssp b = true
      · refine ⟨c, ?_, by simpa [msspText, msspRest, hb] using h⟩
        rw [msspScan, h.peek]
        exact if_pos hb
      · obtain ⟨c', hput, hat⟩ := h.skip.put b
        obtain ⟨c'', hscan, hat'⟩ := ih (Nat.lt_of_succ_lt_succ hfuel) hat
        refine ⟨c'', ?_, by simpa [msspText, msspRest, hb] using hat'⟩
        rw [msspScan, h.peek]
        simp [hb, hput, hscan]

/-- The strings of the pairs and of the name, read off the buffer. -/
structure MsspSlots (mem : List UInt8) (values : List (ℕ × ℕ)) (name : Option ℕ)
    (pairs : List (CText × CText)) (var : CText) : Prop where
  values : values.map (fun v => (stringAt mem v.1, stringAt mem v.2)) = pairs
  name : ∀ n ∈ name, stringAt mem n = var

theorem endsMssp_of_rest {l rest : List UInt8} {next : UInt8} (h : msspRest l = next :: rest) :
    endsMssp next = true := by
  have hhead := List.head?_dropWhile_not (fun b => !endsMssp b) l
  unfold msspRest at h
  rw [h] at hhead
  simpa using hhead

theorem readsBehind_of_rest_nil {b : UInt8} {l : List UInt8} (h : msspRest (b :: l) = []) :
    msspReadsBehind (b :: l) = true := by
  unfold msspRest at h
  rw [List.dropWhile_eq_nil_iff] at h
  rw [msspReadsBehind, List.getLast?_eq_some_getLast (List.cons_ne_nil b l), Option.any_some]
  exact h _ (List.getLast_mem _)

theorem readsBehind_of_rest_cons {l rest : List UInt8} {next : UInt8}
    (h : msspRest l = next :: rest) : msspReadsBehind l = msspReadsBehind rest := by
  have hsplit : l = msspText l ++ next :: rest := by rw [← h, msspText_append_rest]
  rw [msspReadsBehind, hsplit, List.getLast?_append]
  cases rest with
  | nil => simp [msspReadsBehind, endsMssp_of_rest h]
  | cons x rest =>
      rw [List.getLast?_cons_cons, List.getLast?_eq_some_getLast (List.cons_ne_nil x rest)]
      simp [msspReadsBehind, List.getLast?_eq_some_getLast (List.cons_ne_nil x rest)]

theorem length_msspRest {l rest : List UInt8} {next : UInt8} (h : msspRest l = next :: rest) :
    rest.length < l.length := by
  have hlen := congrArg List.length (msspText_append_rest l)
  rw [h, List.length_append, List.length_cons] at hlen
  omega

/-- The text behind a marker is stored. -/
theorem msspStore_eq {type : UInt8} (htype : endsMssp type = true) {name : Option ℕ}
    (hname : type = msspVal → name.isSome) (last : ℕ) (values : List (ℕ × ℕ)) :
    ∃ r, msspStore (some type) last name values = some r ∧ r.1.isSome ∧
      ∀ mem pairs var, MsspSlots mem values name pairs var →
        MsspSlots mem r.2 r.1 (pairs ++ msspPair type var (stringAt mem last))
          (if type = msspVar then stringAt mem last else var) := by
  have htype' : type = msspVar ∨ type = msspVal := by simpa [endsMssp] using htype
  rcases htype' with rfl | rfl
  · refine ⟨(some last, values), if_pos rfl, rfl, ?_⟩
    intro mem pairs var hslots
    refine ⟨by simpa [msspPair, msspVar, msspVal] using hslots.values, ?_⟩
    intro n hn
    cases hn
    rfl
  · obtain ⟨n, rfl⟩ := Option.isSome_iff_exists.1 (hname rfl)
    refine ⟨(some n, values ++ [(n, last)]), rfl, rfl, ?_⟩
    intro mem pairs var hslots
    refine ⟨by simp [msspPair, hslots.values, hslots.name n rfl], ?_⟩
    intro m hm
    cases hm
    exact hslots.name n rfl

/-- **The loop over the texts**: it stays within the bytes received but for the last byte that it
reads, and finds the pairs that the bytes spell. -/
theorem msspLoop_eq {fuel : ℕ} {rest : List UInt8} (hfuel : rest.length < fuel)
    {c : Cursor UInt8} {done : List UInt8} (h : c.At done rest 1) (type : UInt8)
    (htype : endsMssp type = true) (name : Option ℕ) (hname : type = msspVal → name.isSome)
    (values : List (ℕ × ℕ)) (pairs : List (CText × CText)) (var : CText)
    (hslots : ∀ mem, done <+: mem → MsspSlots mem values name pairs var)
    (behind : Bool) :
    ∃ values' mem', msspLoop fuel c (some type) name values behind =
        some (.pairs values' mem' (behind || msspReadsBehind rest)) ∧
      values'.map (fun v => (stringAt mem' v.1, stringAt mem' v.2)) =
        pairs ++ msspRead fuel type var rest := by
  induction fuel generalizing rest c done type name values pairs var behind with
  | zero => omega
  | succ fuel ih =>
      have hlen := h.length_eq
      have hgap := h.gap
      have hwrite := h.write_eq
      cases rest with
      | nil =>
          have hend : c.mem.length ≤ c.read := by
            rw [hlen, ← hgap, hwrite]
            simp
          refine ⟨values, c.mem, ?_, ?_⟩
          · rw [msspLoop, if_pos hend]
            simp [msspReadsBehind]
          · have hdone : done <+: c.mem := by
              rw [← h.take]
              exact List.take_prefix _ _
            simpa [msspRead] using (hslots c.mem hdone).values
      | cons b l =>
          have hmore : ¬ c.mem.length ≤ c.read := by
            rw [hlen, ← hgap, hwrite, List.length_cons]
            omega
          obtain ⟨c', hscan, hat⟩ := msspScan_eq
            (show (b :: l).length < c.mem.length + 1 by omega) h
          obtain ⟨c'', hput, hat'⟩ := hat.put 0
          obtain ⟨r, hstore, hsome, hr⟩ := msspStore_eq htype hname c.write values
          have hslot : ∀ mem, done ++ msspText (b :: l) ++ [0] <+: mem →
              stringAt mem c.write = textOf (msspText (b :: l)) := by
            rintro mem ⟨after, rfl⟩
            rw [hwrite]
            exact stringAt_done _ _ _
          have hslots' : ∀ mem, done ++ msspText (b :: l) ++ [0] <+: mem →
              MsspSlots mem r.2 r.1 (pairs ++ msspPair type var (textOf (msspText (b :: l))))
                (if type = msspVar then textOf (msspText (b :: l)) else var) := by
            intro mem hmem
            have hdone : done <+: mem := by
              refine List.IsPrefix.trans ?_ hmem
              rw [List.append_assoc]
              exact List.prefix_append _ _
            rw [← hslot mem hmem]
            exact hr mem pairs var (hslots mem hdone)
          cases hrest : msspRest (b :: l) with
          | nil =>
              rw [hrest] at hat'
              obtain ⟨fuel, rfl⟩ : ∃ f, fuel = f + 1 := ⟨fuel - 1, by simp at hfuel; omega⟩
              have hend : c''.skip.mem.length ≤ c''.skip.read := by
                show c''.mem.length ≤ c''.read + 1
                have hlen' := hat'.length_eq
                rw [← hat'.gap, hat'.write_eq, hlen']
                simp
              refine ⟨r.2, c''.mem, ?_, ?_⟩
              · rw [msspLoop, if_neg hmore]
                simp only [hscan, hput, hstore, hat'.peek, Option.bind_eq_bind, Option.bind_some,
                  List.head?_nil, Option.isNone_none, Bool.or_true]
                rw [msspLoop, if_pos hend, readsBehind_of_rest_nil hrest, Bool.or_true]
                rfl
              · have hdone : done ++ msspText (b :: l) ++ [0] <+: c''.mem := by
                  rw [← hat'.take]
                  exact List.take_prefix _ _
                simpa [msspRead, hrest] using (hslots' c''.mem hdone).values
          | cons next rest =>
              rw [hrest] at hat'
              have hshort := length_msspRest hrest
              obtain ⟨values', mem', hloop, hvalues⟩ := ih (by omega) hat'.skip next
                (endsMssp_of_rest hrest) r.1 (fun _ => hsome) r.2 _ _ hslots' behind
              refine ⟨values', mem', ?_, ?_⟩
              · rw [msspLoop, if_neg hmore]
                simp only [hscan, hput, hstore, hat'.peek, Option.bind_eq_bind, Option.bind_some,
                  List.head?_cons, Option.isNone_some, Bool.or_false, hloop,
                  readsBehind_of_rest_cons hrest]
              · rw [hvalues, msspRead, hrest, msspNext_cons, List.append_assoc]

/-- An entry is left unfilled exactly if the bytes end with the marker of a value. -/
theorem length_msspRead {fuel : ℕ} {rest : List UInt8} (hfuel : rest.length < fuel) (type : UInt8)
    (var : CText) :
    (msspRead fuel type var rest).length +
        (if (type :: rest).getLast? = some msspVal then 1 else 0) =
      (type :: rest).count msspVal := by
  induction fuel generalizing rest type var with
  | zero => omega
  | succ fuel ih =>
      cases rest with
      | nil => simp [msspRead, List.count_cons]
      | cons b l =>
          have hpair : ∀ text, (msspPair type var text).length = [type].count msspVal := by
            intro text
            unfold msspPair
            split
            · next h => simp [h]
            · next h => simp [h]
          have hplain : (msspText (b :: l)).count msspVal = 0 := by
            rw [List.count_eq_zero]
            intro hmem
            have := List.mem_takeWhile_imp hmem
            simp [endsMssp] at this
          have hsplit := msspText_append_rest (b :: l)
          have hcount : (type :: b :: l).count msspVal =
              [type].count msspVal + (msspRest (b :: l)).count msspVal := by
            have happend : (b :: l).count msspVal =
                (msspText (b :: l)).count msspVal + (msspRest (b :: l)).count msspVal := by
              rw [← List.count_append, hsplit]
            rw [List.count_cons, List.count_singleton, happend, hplain]
            omega
          rw [msspRead, hcount, List.getLast?_cons_cons]
          cases hrest : msspRest (b :: l) with
          | nil =>
              have hbehind := readsBehind_of_rest_nil hrest
              have hlast : (b :: l).getLast? ≠ some msspVal := by
                intro h
                rw [msspReadsBehind, h] at hbehind
                exact absurd hbehind (by decide)
              simp [hpair, hlast]
          | cons next rest =>
              have hshort := length_msspRest hrest
              have hlast : (b :: l).getLast? = (next :: rest).getLast? := by
                conv_lhs => rw [← hsplit, hrest, List.getLast?_append]
                rw [List.getLast?_eq_some_getLast (List.cons_ne_nil next rest), Option.some_or]
              have hrec := ih (show rest.length < fuel by omega) next
                (if type = msspVar then textOf (msspText (b :: l)) else var)
              rw [msspNext_cons, List.length_append, hpair, hlast]
              omega

/-- The byte behind those received is read by the loop. -/
def msspOverreads (telnet : Telnet) : Bool :=
  match msspLoop (telnet.buffer.length + 1) ⟨telnet.buffer, 1, 0⟩ telnet.buffer.head? none [] false with
  | some (.pairs _ _ behind) => behind
  | _ => false

/-- **What `_mssp_telnet` makes of bytes that start with a name.** -/
theorem msspTelnet_eq {mem : ℕ → Bool} {telnet : Telnet} {args : List UInt8}
    (hbuffer : telnet.buffer = msspVar :: args) (hmem : mem telnet.allocs = true) :
    (∃ telnet', msspTelnet mem telnet = some (telnet',
      [.mssp ((msspRead (telnet.buffer.length + 1) msspVar [] args).map some ++
        if telnet.buffer.getLast? = some msspVal then [none] else [])])) ∧
      msspOverreads telnet = msspReadsBehind args := by
  have hat : Cursor.At (⟨telnet.buffer, 1, 0⟩ : Cursor UInt8) [] args 1 :=
    ⟨rfl, by rw [hbuffer]; rfl, rfl, by rw [hbuffer]; simp⟩
  have hfuel : args.length < telnet.buffer.length + 1 := by
    rw [hbuffer, List.length_cons]
    omega
  obtain ⟨values, mem', hloop, hvalues⟩ := msspLoop_eq hfuel hat msspVar (by decide) none
    (fun h => absurd h (by decide)) [] [] []
    (fun _ _ => ⟨rfl, fun _ hn => by cases hn⟩) false
  rw [Bool.false_or] at hloop
  rw [List.nil_append] at hvalues
  have hcount := length_msspRead hfuel msspVar []
  rw [← hbuffer] at hcount
  have hlength : values.length = (msspRead (telnet.buffer.length + 1) msspVar [] args).length := by
    rw [← hvalues, List.length_map]
  constructor
  · refine ⟨{ telnet.alloc with buffer := mem' }, ?_⟩
    have htelnet : msspTelnet mem telnet =
        some ((MsspOutcome.pairs values mem' (msspReadsBehind args)).finish telnet.alloc
          (telnet.buffer.count msspVal)) := by
      unfold msspTelnet
      rw [hbuffer] at hloop ⊢
      dsimp only
      rw [if_neg (by simp), if_neg (by simp [hmem]), hloop]
      rfl
    rw [htelnet, MsspOutcome.finish, msspValues, ← hvalues, ← hcount, ← hlength]
    simp only [List.map_map, Nat.add_sub_cancel_left]
    split <;> rfl
  · rw [msspOverreads, hbuffer]
    rw [hbuffer] at hloop
    simp only [List.head?_cons, hloop]

theorem msspTelnet_isSome (mem : ℕ → Bool) (telnet : Telnet) : (msspTelnet mem telnet).isSome := by
  cases hbuffer : telnet.buffer with
  | nil => simp [msspTelnet, hbuffer]
  | cons first args =>
      by_cases hfirst : first = msspVar
      · cases hmem : mem telnet.allocs with
        | false => simp [msspTelnet, hbuffer, hfirst, hmem]
        | true =>
            rw [hfirst] at hbuffer
            obtain ⟨⟨telnet', htelnet⟩, -⟩ := msspTelnet_eq hbuffer hmem
            rw [htelnet]
            rfl
      · simp [msspTelnet, hbuffer, hfirst]

/-- **A subnegotiation is taken apart within the bytes received**, whatever they are. -/
theorem subnegotiateOption_isSome (mem : ℕ → Bool) (telnet : Telnet) :
    (telnet.subnegotiateOption mem).isSome := by
  unfold Telnet.subnegotiateOption
  split
  · rfl
  · split
    · rfl
    · split
      · exact environTelnet_isSome mem telnet telnet.sbTelopt
      · split
        · rw [Option.isSome_map]
          exact msspTelnet_isSome mem telnet
        · rfl

/-! ### Reading back names with their values -/

/-- The bytes of a name with its values. -/
def encodeMssp (v : List UInt8 × List (List UInt8)) : List UInt8 :=
  msspVar :: (v.1 ++ v.2.flatMap fun text => msspVal :: text)

/-- A text of `MSSP`: there is no escape for a marker in it. -/
def MsspPlain (text : List UInt8) : Prop := ∀ b ∈ text, endsMssp b = false

/-- What comes behind a text starts with a marker. -/
def AtMarker (tail : List UInt8) : Prop := ∀ b ∈ tail.head?, endsMssp b = true

theorem msspText_append {text tail : List UInt8} (htext : MsspPlain text) (htail : AtMarker tail) :
    msspText (text ++ tail) = text ∧ msspRest (text ++ tail) = tail := by
  have hplain : ∀ b ∈ text, (!endsMssp b) = true := by
    intro b hb
    simp [htext b hb]
  unfold msspText msspRest
  rw [List.takeWhile_append_of_pos hplain, List.dropWhile_append_of_pos hplain]
  cases tail with
  | nil => simp
  | cons b tail => simp [htail b rfl]

/-- One text is read. -/
theorem msspRead_text {fuel : ℕ} {text tail : List UInt8} (htext : MsspPlain text)
    (htail : AtMarker tail) (hsome : text ++ tail ≠ []) (type : UInt8) (var : CText) :
    msspRead (fuel + 1) type var (text ++ tail) = msspPair type var (textOf text) ++
      msspNext (fun next rest =>
        msspRead fuel next (if type = msspVar then textOf text else var) rest) tail := by
  obtain ⟨b, l, hbl⟩ := List.exists_cons_of_ne_nil hsome
  have hsplit := msspText_append htext htail
  rw [hbl] at hsplit
  rw [hbl, msspRead, hsplit.1, hsplit.2]

/-- The values of a name are read. -/
theorem msspRead_values {values : List (List UInt8)} (hplain : ∀ text ∈ values, MsspPlain text)
    {tail : List UInt8} (htail : AtMarker tail)
    (hlast : tail = [] → values.getLast? ≠ some []) (name : CText) (fuel : ℕ)
    (hfuel : (values.flatMap (fun text => msspVal :: text) ++ tail).length ≤ fuel) :
    ∃ fuel', tail.length ≤ fuel' ∧
      msspNext (fun next rest => msspRead fuel next name rest)
          (values.flatMap (fun text => msspVal :: text) ++ tail) =
        values.map (fun text => (name, textOf text)) ++
          msspNext (fun next rest => msspRead fuel' next name rest) tail := by
  induction values generalizing fuel with
  | nil => exact ⟨fuel, by simpa using hfuel, by simp⟩
  | cons text values ih =>
      obtain ⟨fuel, rfl⟩ : ∃ f, fuel = f + 1 := ⟨fuel - 1, by simp at hfuel; omega⟩
      have hbehind : AtMarker (values.flatMap (fun text => msspVal :: text) ++ tail) := by
        cases values with
        | nil => simpa using htail
        | cons v values =>
            intro b hb
            cases hb
            decide
      have hsome : text ++ (values.flatMap (fun text => msspVal :: text) ++ tail) ≠ [] := by
        intro hnil
        simp only [List.append_eq_nil_iff, List.flatMap_eq_nil_iff] at hnil
        obtain ⟨rfl, hvalues, rfl⟩ := hnil
        have hnone : values = [] := List.eq_nil_iff_forall_not_mem.2 fun v hv => by
          simpa using hvalues v hv
        exact hlast rfl (by simp [hnone])
      have hlast' : tail = [] → values.getLast? ≠ some [] := by
        intro h
        have := hlast h
        cases values with
        | nil => simp
        | cons v values => simpa [List.getLast?_cons_cons] using this
      simp only [List.flatMap_cons, List.cons_append, List.length_cons, List.append_assoc,
        List.length_append] at hfuel
      obtain ⟨fuel', hfuel', hread⟩ := ih (fun t ht => hplain t (List.mem_cons_of_mem _ ht)) hlast'
        fuel (by rw [List.length_append]; omega)
      refine ⟨fuel', hfuel', ?_⟩
      simp only [List.flatMap_cons, List.cons_append, List.append_assoc, List.map_cons,
        msspNext_cons]
      rw [msspRead_text (hplain text (by simp)) hbehind hsome, if_neg (by decide), hread]
      simp [msspPair]

/-- The values, each with its name, as strings: a text is cut off at the first NUL. -/
def msspPairs (vs : List (List UInt8 × List (List UInt8))) : List (CText × CText) :=
  vs.flatMap fun v => v.2.map fun text => (textOf v.1, textOf text)

/-- The bytes end with a text that is not empty. -/
def EndsWithText (l : List UInt8) : Prop := ∀ b ∈ l.getLast?, endsMssp b = false

theorem EndsWithText.append (l : List UInt8) {l' : List UInt8} (h : EndsWithText (l ++ l')) :
    EndsWithText l' := by
  intro b hb
  refine h b ?_
  rw [List.getLast?_append]
  exact Option.mem_def.2 (by rw [Option.mem_def.1 hb]; rfl)

theorem endsWithText_values {values : List (List UInt8)}
    (h : EndsWithText (values.flatMap fun text => msspVal :: text)) :
    values.getLast? ≠ some [] := by
  intro hlast
  obtain ⟨front, rfl⟩ := List.getLast?_eq_some_iff.1 hlast
  have hmarker : endsMssp msspVal = false := h msspVal (by simp)
  exact absurd hmarker (by decide)

/-- **Names and their values are read back** as strings, if the last text is not empty. -/
theorem msspRead_encode {vs : List (List UInt8 × List (List UInt8))}
    (hplain : ∀ v ∈ vs, MsspPlain v.1 ∧ ∀ text ∈ v.2, MsspPlain text)
    (hlast : EndsWithText (vs.flatMap encodeMssp)) (name : CText) (fuel : ℕ)
    (hfuel : (vs.flatMap encodeMssp).length ≤ fuel) :
    msspNext (fun next rest => msspRead fuel next name rest) (vs.flatMap encodeMssp) =
      msspPairs vs := by
  induction vs generalizing name fuel with
  | nil => rfl
  | cons v vs ih =>
      obtain ⟨hname, hvalues⟩ := hplain v (by simp)
      have hbytes : (v :: vs).flatMap encodeMssp = msspVar ::
          (v.1 ++ (v.2.flatMap (fun text => msspVal :: text) ++ vs.flatMap encodeMssp)) := by
        simp [encodeMssp]
      rw [hbytes] at hlast hfuel ⊢
      obtain ⟨fuel, rfl⟩ : ∃ f, fuel = f + 1 := ⟨fuel - 1, by simp at hfuel; omega⟩
      have htail : AtMarker (vs.flatMap encodeMssp) := by
        cases vs with
        | nil => intro b hb; cases hb
        | cons w vs => intro b hb; cases hb; decide
      have htail' :
          AtMarker (v.2.flatMap (fun text => msspVal :: text) ++ vs.flatMap encodeMssp) := by
        cases hv : v.2 with
        | nil => simpa using htail
        | cons text values => intro b hb; cases hb; decide
      have hsome :
          v.1 ++ (v.2.flatMap (fun text => msspVal :: text) ++ vs.flatMap encodeMssp) ≠ [] := by
        intro hnil
        rw [hnil] at hlast
        exact absurd (hlast msspVar rfl) (by decide)
      have hlast' : vs.flatMap encodeMssp = [] → v.2.getLast? ≠ some [] := by
        intro hnil
        rw [hnil, List.append_nil] at hlast
        exact endsWithText_values (EndsWithText.append ([msspVar] ++ v.1) (by simpa using hlast))
      rw [msspNext_cons, msspRead_text hname htail' hsome, if_pos rfl]
      simp only [List.length_cons, List.length_append] at hfuel
      obtain ⟨fuel', hfuel', hread⟩ := msspRead_values hvalues htail hlast' (textOf v.1) fuel
        (by rw [List.length_append]; omega)
      rw [hread, ih (fun w hw => hplain w (List.mem_cons_of_mem v hw)) ?_ (textOf v.1) fuel' hfuel']
      · simp [msspPair, msspPairs, msspVar, msspVal]
      · exact EndsWithText.append (msspVar :: (v.1 ++ v.2.flatMap fun text => msspVal :: text))
          (by simpa using hlast)

/-! ### `ZMP` -/

/-- The bytes of the arguments: `telnet_zmp_arg` sends each with its NUL. -/
def zmpBytes (argv : List CText) : List UInt8 := argv.flatMap fun arg => arg ++ [0]

/-- **The arguments are read back.** -/
theorem zmpArguments_zmpBytes {argv : List CText} (h : ∀ arg ∈ argv, 0 ∉ arg) {fuel : ℕ}
    (hfuel : (zmpBytes argv).length ≤ fuel) : zmpArguments fuel (zmpBytes argv) = argv := by
  induction argv generalizing fuel with
  | nil => cases fuel <;> rfl
  | cons arg argv ih =>
      have hbytes : zmpBytes (arg :: argv) = arg ++ 0 :: zmpBytes argv := by simp [zmpBytes]
      rw [hbytes, List.length_append, List.length_cons] at hfuel
      obtain ⟨fuel, rfl⟩ : ∃ f, fuel = f + 1 := ⟨fuel - 1, by omega⟩
      have hdrop : (arg ++ 0 :: zmpBytes argv).drop (arg.length + 1) = zmpBytes argv := by
        simp [← List.drop_drop]
      rw [hbytes, zmpArguments, if_neg (by simp), textOf_append_nul,
        textOf_eq_self (h arg (by simp)), hdrop,
        ih (fun a ha => h a (List.mem_cons_of_mem arg ha)) (by omega)]

end Wsn
