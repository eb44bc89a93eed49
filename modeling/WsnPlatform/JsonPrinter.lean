/-
**The printer of cJSON.**

`print_array` and `print_object` print their children into blocks of their own, add up the lengths,
ask for one block that holds everything, and free the others.  `print_array` stops at the first
child that cannot be printed; `print_object` goes on to the end.

`print_number` chooses a format by what the number is, and a number of any size fits into its block.

Main definitions:

* `DoubleValue.isInt`, `DoubleValue.isWhole`, `DoubleValue.isExtreme` — the guards of `print_number`;
* `cJsonPrintNumber`, `composeArray`, `composeObject`, `JsonItem.print`, `cJsonPrint` — the
  functions of the source;
* `JsonItem.text` — the text of an item.

Main results:

* `length_numberText_lt` — the text of a number fits into its block;
* `print_spec`, `cJsonPrint_owns` — **printing never writes behind a block**, and leaves the block
  of the text, or nothing.
-/

import WsnPlatform.JsonParser

set_option relaxedAutoImplicit false
set_option autoImplicit false

namespace Wsn

variable {D : Type}

/-! ### The texts -/

/-- What `sprintf` writes with `"%d"`. -/
def intText (i : ℤ) : CText :=
  if i < 0 then 45 :: decimalText i.natAbs else decimalText i.natAbs

/-- `DBL_EPSILON`. -/
def dblEpsilon : ℚ := 1 / 2 ^ 52

/-- The double that `1.0e60` is. -/
def double1e60 : ℚ := 999999999999999949387135297074018866963645011013410073083904

/-- The double that `1.0e-6` is. -/
def double1em6 : ℚ := 4722366482869645 / 2 ^ 72

/-- `fabs(((double)i)-d)<=DBL_EPSILON && d<=INT_MAX && d>=INT_MIN`.  Where a difference is that
small, it is exact. -/
def DoubleValue.isInt (i : ℤ) (d : DoubleValue) : Bool :=
  d.number?.any fun q => |(i : ℚ) - q| ≤ dblEpsilon ∧ q ≤ 2 ^ 31 - 1 ∧ -2 ^ 31 ≤ q

/-- `fabs(floor(d)-d)<=DBL_EPSILON && fabs(d)<1.0e60`. -/
def DoubleValue.isWhole (d : DoubleValue) : Bool :=
  d.number?.any fun q => |(⌊q⌋ : ℚ) - q| ≤ dblEpsilon ∧ |q| < double1e60

/-- `fabs(d)<1.0e-6 || fabs(d)>1.0e9`. -/
def DoubleValue.isExtreme : DoubleValue → Bool
  | .finite _ magnitude => magnitude.val < double1em6 ∨ 10 ^ 9 < magnitude.val
  | .infinite _ => true
  | .nan _ => false

/-- **The text of a number**, with `"%d"`, `"%.0f"`, `"%e"` or `"%f"`. -/
def numberText (A : Doubles D) (i : ℤ) (d : D) : CText :=
  if (A.value d).isInt i = true then intText i
  else if (A.value d).isWhole = true then (A.value d).print (fixedText 0)
  else if (A.value d).isExtreme = true then (A.value d).print scientificText
  else (A.value d).print (fixedText 6)

/-- What stands between two elements. -/
def arraySeparator (fmt : Bool) : CText := if fmt then [44, 32] else [44]

/-- The elements of an array, with what stands between them. -/
def joinElements (fmt : Bool) : List CText → CText
  | [] => []
  | [entry] => entry
  | entry :: entry' :: entries =>
      entry ++ (arraySeparator fmt ++ joinElements fmt (entry' :: entries))

/-- The text of an array. -/
def arrayText (fmt : Bool) (entries : List CText) : CText :=
  91 :: (joinElements fmt entries ++ [93])

/-- The tabs in front of a line; there are none without formatting. -/
def indent (fmt : Bool) (depth : ℕ) : CText := if fmt then List.replicate depth 9 else []

/-- The end of a line. -/
def lineEnd (fmt : Bool) : CText := if fmt then [10] else []

/-- A member: its name and its value. -/
def memberText (fmt : Bool) (depth : ℕ) (member : CText × CText) : CText :=
  indent fmt depth ++ (member.1 ++ (58 :: ((if fmt then [9] else []) ++ member.2)))

/-- The members of an object, with commas between them. -/
def joinMembers (fmt : Bool) (depth : ℕ) : List (CText × CText) → CText
  | [] => []
  | [member] => memberText fmt depth member ++ lineEnd fmt
  | member :: member' :: members =>
      memberText fmt depth member ++ (44 :: (lineEnd fmt ++
        joinMembers fmt depth (member' :: members)))

/-- The text of an object with members; `depth` is that of the object. -/
def objectText (fmt : Bool) (depth : ℕ) (members : List (CText × CText)) : CText :=
  123 :: (lineEnd fmt ++ (joinMembers fmt (depth + 1) members ++ (indent fmt depth ++ [125])))

/-- The text of an object without members. -/
def emptyObjectText (fmt : Bool) (depth : ℕ) : CText :=
  123 :: (lineEnd fmt ++ (indent fmt (depth - 1) ++ [125]))

/-! ### The functions of the source -/

/-- A block of a size is asked for, and a text written into it. -/
def printText (mem : ℕ → Bool) (size : ℕ) (text : CText) (heap : JsonHeap) :
    Except JsonFault (Option TextBlock × JsonHeap) :=
  match cJsonMalloc mem heap with
  | (none, heap) => .ok (none, heap)
  | (some out, heap) => do
      let block ← writeText out size text
      .ok (some block, heap)

/-- **`print_number`**. -/
def cJsonPrintNumber (A : Doubles D) (mem : ℕ → Bool) (i : ℤ) (d : D) (heap : JsonHeap) :
    Except JsonFault (Option TextBlock × JsonHeap) :=
  printText mem (if (A.value d).isInt i = true then 21 else 64) (numberText A i d) heap

/-- The blocks that are there are freed, one after the other. -/
def freeTexts (blocks : List (Option TextBlock)) (heap : JsonHeap) : JsonHeap :=
  blocks.foldl (fun heap block => freeText block heap) heap

/-- The texts of the blocks, if all of them are there. -/
def allTexts : List (Option TextBlock) → Option (List CText)
  | [] => some []
  | block :: blocks => do
      let b ← block
      let texts ← allTexts blocks
      some (b.text :: texts)

/-- The block of a container is asked for and filled, and the texts of the children are freed in
any case, with the arrays that lead to them. -/
def composeOut (mem : ℕ → Bool) (fail : Bool) (size : ℕ) (text : CText)
    (blocks : List (Option TextBlock)) (arrays : List ℕ) (heap : JsonHeap) :
    Except JsonFault (Option TextBlock × JsonHeap) := do
  let (out, heap) ← if fail then .ok (none, heap) else printText mem size text heap
  .ok (out, arrays.foldl (fun heap ptr => cJsonFree ptr heap) (freeTexts blocks heap))

/-- **`print_array`** behind the loop over the children. -/
def composeArray (mem : ℕ → Bool) (fmt : Bool) (entries : List (Option TextBlock)) (array : ℕ)
    (heap : JsonHeap) : Except JsonFault (Option TextBlock × JsonHeap) :=
  let texts := (allTexts entries).getD []
  composeOut mem (allTexts entries).isNone
    (5 + (texts.map fun text => text.length + 2 + (if fmt then 1 else 0)).sum)
    (arrayText fmt texts) entries [array] heap

/-- **`print_object`** behind the loop over the children; `depth` is that of the object. -/
def composeObject (mem : ℕ → Bool) (fmt : Bool) (depth : ℕ)
    (members : List (Option TextBlock × Option TextBlock)) (entries names : ℕ) (heap : JsonHeap) :
    Except JsonFault (Option TextBlock × JsonHeap) :=
  let names' := allTexts (members.map Prod.fst)
  let entries' := allTexts (members.map Prod.snd)
  let texts := (names'.getD []).zip (entries'.getD [])
  composeOut mem (names'.isNone || entries'.isNone)
    (7 + (if fmt then depth + 1 else 0) + (texts.map fun member =>
      member.2.length + member.1.length + 2 + (if fmt then 2 + (depth + 1) else 0)).sum)
    (objectText fmt depth texts) (members.flatMap fun member => [member.1, member.2])
    [names, entries] heap

mutual

/-- **`print_value`**, with `print_array` and `print_object`. -/
def JsonItem.print (A : Doubles D) (mem : ℕ → Bool) (fmt : Bool) :
    JsonItem D → ℕ → JsonHeap → Except JsonFault (Option TextBlock × JsonHeap)
  | ⟨_, type, valuestring, valueint, valuedouble, _, child⟩, depth, heap =>
      match type with
      | .null => .ok (cJsonStrdup mem (literal "null") heap)
      | .false => .ok (cJsonStrdup mem (literal "false") heap)
      | .true => .ok (cJsonStrdup mem (literal "true") heap)
      | .number => cJsonPrintNumber A mem valueint valuedouble heap
      | .string => printStringPtr mem valuestring heap
      | .array =>
          if child.isEmpty = true then printText mem 3 (arrayText fmt []) heap
          else
            match cJsonMalloc mem heap with
            | (none, heap) => .ok (none, heap)
            | (some array, heap) => do
                let (entries, heap) ← printEntries A mem fmt child (depth + 1) heap
                composeArray mem fmt entries array heap
      | .object =>
          if child.isEmpty = true then
            printText mem (if fmt then depth + 4 else 3) (emptyObjectText fmt depth) heap
          else
            match cJsonMalloc mem heap with
            | (none, heap) => .ok (none, heap)
            | (some entries, heap) =>
                match cJsonMalloc mem heap with
                | (none, heap) => .ok (none, cJsonFree entries heap)
                | (some names, heap) => do
                    let (members, heap) ← printMembers A mem fmt child (depth + 1) heap
                    composeObject mem fmt depth members entries names heap

/-- The loop over the children of an array, up to the first one that cannot be printed. -/
def printEntries (A : Doubles D) (mem : ℕ → Bool) (fmt : Bool) :
    List (JsonItem D) → ℕ → JsonHeap → Except JsonFault (List (Option TextBlock) × JsonHeap)
  | [], _, heap => .ok ([], heap)
  | child :: next, depth, heap => do
      let (ret, heap) ← child.print A mem fmt depth heap
      match ret with
      | none => .ok ([none], heap)
      | some ret => do
          let (entries, heap) ← printEntries A mem fmt next depth heap
          .ok (some ret :: entries, heap)

/-- The loop over the children of an object: a name and a value each. -/
def printMembers (A : Doubles D) (mem : ℕ → Bool) (fmt : Bool) :
    List (JsonItem D) → ℕ → JsonHeap →
      Except JsonFault (List (Option TextBlock × Option TextBlock) × JsonHeap)
  | [], _, heap => .ok ([], heap)
  | child :: next, depth, heap => do
      let (str, heap) ← printStringPtr mem child.string heap
      let (ret, heap) ← child.print A mem fmt depth heap
      let (members, heap) ← printMembers A mem fmt next depth heap
      .ok ((str, ret) :: members, heap)

end

/-- **`cJSON_Print`**, or `cJSON_PrintUnformatted` without formatting. -/
def cJsonPrint (A : Doubles D) (mem : ℕ → Bool) (fmt : Bool) (item : JsonItem D)
    (heap : JsonHeap) : Except JsonFault (Option TextBlock × JsonHeap) :=
  item.print A mem fmt 0 heap

/-! ### The text of an item -/

mutual

/-- **The text of an item.** -/
def JsonItem.text (A : Doubles D) (fmt : Bool) : JsonItem D → ℕ → CText
  | ⟨_, type, valuestring, valueint, valuedouble, _, child⟩, depth =>
      match type with
      | .null => literal "null"
      | .false => literal "false"
      | .true => literal "true"
      | .number => numberText A valueint valuedouble
      | .string => stringText valuestring
      | .array => arrayText fmt (chainTexts A fmt child (depth + 1))
      | .object =>
          if child.isEmpty = true then emptyObjectText fmt depth
          else objectText fmt depth (memberTexts A fmt child (depth + 1))

/-- The texts of a chain. -/
def chainTexts (A : Doubles D) (fmt : Bool) : List (JsonItem D) → ℕ → List CText
  | [], _ => []
  | child :: next, depth => child.text A fmt depth :: chainTexts A fmt next depth

/-- The texts of a chain with their names. -/
def memberTexts (A : Doubles D) (fmt : Bool) : List (JsonItem D) → ℕ → List (CText × CText)
  | [], _ => []
  | child :: next, depth =>
      (stringText child.string, child.text A fmt depth) :: memberTexts A fmt next depth

end

/-! ### Printing one block -/

variable {mem : ℕ → Bool} {heap : JsonHeap} {held : List ℕ}

theorem printText_spec (mem : ℕ → Bool) {size : ℕ} {text : CText} (hfits : text.length < size)
    (hzero : 0 ∉ text) (hheld : heap.Holds held) :
    ∃ out heap', printText mem size text heap = .ok (out, heap') ∧
      heap'.Holds (textBlocks out ++ held) ∧ Printed mem heap text out heap' := by
  rcases cJsonMalloc_spec mem hheld with ⟨heap', hcall, hheld', hfail⟩ |
    ⟨addr, heap', hcall, hheld', hle⟩
  · exact ⟨none, heap', by simp [printText, hcall], hheld', printed_none hfail⟩
  · refine ⟨some (.of addr text), heap', ?_, hheld', printed_of hzero addr hle⟩
    simp only [printText, hcall, writeText, hfits, if_true, bind, Except.bind]

theorem zero_notMem_intText (i : ℤ) : 0 ∉ intText i := by
  unfold intText
  split
  · simp [zero_notMem_decimalText]
  · exact zero_notMem_decimalText _

theorem length_intText {i : ℤ} (h : i.natAbs ≤ 2 ^ 31) : (intText i).length < 21 := by
  have hlen : (decimalText i.natAbs).length ≤ 10 :=
    length_decimalText_le (by norm_num) (by omega)
  unfold intText
  split
  · rw [List.length_cons]
    omega
  · omega

/-- What is near to a number between `INT_MIN` and `INT_MAX` is an `int`, or the next to one. -/
theorem DoubleValue.natAbs_le_of_isInt {i : ℤ} {d : DoubleValue} (h : d.isInt i = true) :
    i.natAbs ≤ 2 ^ 31 := by
  cases hnumber : d.number? with
  | none => simp [isInt, hnumber] at h
  | some q =>
      simp only [isInt, hnumber, Option.any_some, decide_eq_true_eq] at h
      obtain ⟨hnear, hhigh, hlow⟩ := h
      obtain ⟨hleft, hright⟩ := abs_le.1 hnear
      have hsmall : dblEpsilon < 1 := by
        rw [dblEpsilon]
        norm_num
      have hupper : (i : ℚ) < 2 ^ 31 := by linarith
      have hlower : -(2 ^ 31 + 1 : ℚ) < i := by linarith
      have hupper' : i < 2 ^ 31 := by exact_mod_cast hupper
      have hlower' : -(2 ^ 31 + 1) < i := by exact_mod_cast hlower
      omega

/-- A whole number below `1.0e60` has sixty digits. -/
theorem DoubleValue.length_print_whole {d : DoubleValue} (h : d.isWhole = true) :
    (d.print (fixedText 0)).length < 64 := by
  refine Nat.lt_of_le_of_lt (length_print_le (n := 61) (by norm_num) ?_) (by norm_num)
  rintro negative magnitude rfl
  have hnonneg := magnitude.nonneg
  have hbound : magnitude.val < 10 ^ 60 := by
    have hsigned : |if negative then -magnitude.val else magnitude.val| = magnitude.val := by
      cases negative <;> simp [abs_of_nonneg hnonneg]
    simp only [isWhole, number?, Option.any_some, decide_eq_true_eq, hsigned] at h
    refine h.2.trans ?_
    rw [double1e60]
    norm_num
  have hlength : (fixedText 0 magnitude.val).length ≤ _ := length_fixedText_le hnonneg hbound
  simpa using hlength

/-- A number that is not extreme has ten digits in front of the point. -/
theorem DoubleValue.length_print_fixed {d : DoubleValue} (h : d.isExtreme = false) :
    (d.print (fixedText 6)).length < 64 := by
  refine Nat.lt_of_le_of_lt (length_print_le (n := 18) (by norm_num) ?_) (by norm_num)
  rintro negative magnitude rfl
  have hbound : magnitude.val < 10 ^ 10 := by
    simp only [isExtreme, decide_eq_false_iff_not, not_or, not_lt] at h
    exact h.2.trans_lt (by norm_num)
  have hlength : (fixedText 6 magnitude.val).length ≤ _ :=
    length_fixedText_le magnitude.nonneg hbound
  simpa using hlength

theorem DoubleValue.length_print_scientific (d : DoubleValue) :
    (d.print scientificText).length < 64 := by
  refine Nat.lt_of_le_of_lt (length_print_le (n := 14) (by norm_num) ?_) (by norm_num)
  exact fun _ magnitude _ => length_scientificText_le magnitude

/-- **The text of a number fits into its block**, whatever the number is. -/
theorem length_numberText_lt (A : Doubles D) (i : ℤ) (d : D) :
    (numberText A i d).length < if (A.value d).isInt i = true then 21 else 64 := by
  unfold numberText
  split
  · next hint => exact length_intText (DoubleValue.natAbs_le_of_isInt hint)
  · split
    · next hwhole => exact DoubleValue.length_print_whole hwhole
    · split
      · exact DoubleValue.length_print_scientific _
      · next hextreme =>
          exact DoubleValue.length_print_fixed (Bool.eq_false_of_not_eq_true hextreme)

theorem zero_notMem_numberText (A : Doubles D) (i : ℤ) (d : D) : 0 ∉ numberText A i d := by
  unfold numberText
  split
  · exact zero_notMem_intText i
  · split
    · exact DoubleValue.zero_notMem_print (zero_notMem_fixedText 0) _
    · split
      · exact DoubleValue.zero_notMem_print zero_notMem_scientificText _
      · exact DoubleValue.zero_notMem_print (zero_notMem_fixedText 6) _

/-- **`print_number` fits into its block.** -/
theorem cJsonPrintNumber_spec (A : Doubles D) (mem : ℕ → Bool) (i : ℤ) (d : D)
    (hheld : heap.Holds held) :
    ∃ out heap', cJsonPrintNumber A mem i d heap = .ok (out, heap') ∧
      heap'.Holds (textBlocks out ++ held) ∧ Printed mem heap (numberText A i d) out heap' :=
  printText_spec mem (length_numberText_lt A i d) (zero_notMem_numberText A i d) hheld

/-! ### Composing a container -/

theorem freeTexts_holds {blocks : List (Option TextBlock)}
    (h : heap.Holds (blocks.flatMap textBlocks ++ held)) : (freeTexts blocks heap).Holds held := by
  induction blocks generalizing heap with
  | nil => exact h
  | cons block blocks ih =>
      rw [List.flatMap_cons, List.append_assoc] at h
      exact ih (freeText_holds h)

theorem freeArrays_holds {arrays : List ℕ} (h : heap.Holds (arrays ++ held)) :
    (arrays.foldl (fun heap ptr => cJsonFree ptr heap) heap).Holds held := by
  induction arrays generalizing heap with
  | nil => exact h
  | cons ptr arrays ih => exact ih (JsonHeap.Holds.free h)

/-- What is left when the texts of the children are freed, and the arrays that lead to them. -/
theorem freeChildren_holds {blocks : List (Option TextBlock)} {arrays owned : List ℕ}
    (h : heap.Holds (owned ++ (blocks.flatMap textBlocks ++ (arrays ++ held)))) :
    (arrays.foldl (fun heap ptr => cJsonFree ptr heap) (freeTexts blocks heap)).Holds
      (owned ++ held) := by
  refine freeArrays_holds (freeTexts_holds (h.perm ?_))
  have hswap : (arrays ++ (owned ++ held)).Perm (owned ++ (arrays ++ held)) :=
    List.perm_append_comm_assoc arrays owned held
  exact (hswap.append_left (blocks.flatMap textBlocks)).trans
    (List.perm_append_comm_assoc _ owned (arrays ++ held))

theorem asked_freeTexts (blocks : List (Option TextBlock)) (heap : JsonHeap) :
    (freeTexts blocks heap).asked = heap.asked := by
  induction blocks generalizing heap with
  | nil => rfl
  | cons block blocks ih => exact (ih (freeText block heap)).trans (asked_freeText block heap)

/-- Freeing asks for nothing. -/
theorem asked_freeChildren (blocks : List (Option TextBlock)) (arrays : List ℕ) (heap : JsonHeap) :
    (arrays.foldl (fun heap ptr => cJsonFree ptr heap) (freeTexts blocks heap)).asked =
      heap.asked := by
  have harrays : ∀ heap : JsonHeap,
      (arrays.foldl (fun heap ptr => cJsonFree ptr heap) heap).asked = heap.asked := by
    induction arrays with
    | nil => exact fun heap => rfl
    | cons ptr arrays ih => exact fun heap => ih (cJsonFree ptr heap)
  rw [harrays, asked_freeTexts]

/-- Where a child could not be printed everything is freed. -/
theorem composeOut_fail (mem : ℕ → Bool) (size : ℕ) (text : CText)
    {blocks : List (Option TextBlock)} {arrays : List ℕ}
    (hheld : heap.Holds (blocks.flatMap textBlocks ++ (arrays ++ held))) :
    ∃ heap', composeOut mem true size text blocks arrays heap = .ok (none, heap') ∧
      heap'.Holds held ∧ heap ≤ heap' :=
  ⟨_, rfl, freeChildren_holds (show heap.Holds ([] ++ _) from hheld),
    (asked_freeChildren blocks arrays heap).ge⟩

/-- Otherwise the block of the container is left. -/
theorem composeOut_spec (mem : ℕ → Bool) {size : ℕ} {text : CText}
    {blocks : List (Option TextBlock)} {arrays : List ℕ} (hfits : text.length < size)
    (hzero : 0 ∉ text) (hheld : heap.Holds (blocks.flatMap textBlocks ++ (arrays ++ held))) :
    ∃ out heap', composeOut mem false size text blocks arrays heap = .ok (out, heap') ∧
      heap'.Holds (textBlocks out ++ held) ∧ Printed mem heap text out heap' := by
  obtain ⟨out, heap', hrun, hheld', hprinted⟩ := printText_spec mem hfits hzero hheld
  refine ⟨out, _, ?_, freeChildren_holds hheld',
    hprinted.mono le_rfl (asked_freeChildren blocks arrays heap').ge⟩
  simp only [composeOut, Bool.false_eq_true, if_false, hrun, bind, Except.bind]

theorem length_joinElements (fmt : Bool) (entries : List CText) :
    (joinElements fmt entries).length ≤
      (entries.map fun text => text.length + 2 + (if fmt then 1 else 0)).sum := by
  induction entries with
  | nil => simp [joinElements]
  | cons entry entries ih =>
      cases entries with
      | nil =>
          simp only [joinElements, List.map_cons, List.map_nil, List.sum_cons, List.sum_nil]
          omega
      | cons entry' entries =>
          rw [List.map_cons, List.sum_cons]
          cases fmt <;>
            simp only [joinElements, List.length_append, arraySeparator, List.length_cons,
              List.length_nil, if_true, if_false, Bool.false_eq_true] at ih ⊢ <;>
            omega

theorem length_arrayText (fmt : Bool) (entries : List CText) :
    (arrayText fmt entries).length <
      5 + (entries.map fun text => text.length + 2 + (if fmt then 1 else 0)).sum := by
  have hjoin := length_joinElements fmt entries
  simp only [arrayText, List.length_cons, List.length_append, List.length_nil]
  omega

theorem length_joinMembers (fmt : Bool) (depth : ℕ) (members : List (CText × CText)) :
    (joinMembers fmt depth members).length ≤ (members.map fun member =>
      member.2.length + member.1.length + 2 + (if fmt then 2 + depth else 0)).sum := by
  induction members with
  | nil => simp [joinMembers]
  | cons member members ih =>
      cases members with
      | nil =>
          cases fmt <;>
            simp [joinMembers, memberText, indent, lineEnd] <;>
            omega
      | cons member' members =>
          rw [List.map_cons, List.sum_cons]
          cases fmt <;>
            simp only [joinMembers, memberText, indent, lineEnd, List.length_append,
              List.length_cons, List.length_nil, List.length_replicate, if_true, if_false,
              Bool.false_eq_true] at ih ⊢ <;>
            omega

theorem length_objectText (fmt : Bool) (depth : ℕ) (members : List (CText × CText)) :
    (objectText fmt depth members).length <
      7 + (if fmt then depth + 1 else 0) + (members.map fun member =>
        member.2.length + member.1.length + 2 + (if fmt then 2 + (depth + 1) else 0)).sum := by
  have hjoin := length_joinMembers fmt (depth + 1) members
  cases fmt <;>
    simp only [objectText, indent, lineEnd, List.length_append, List.length_cons,
      List.length_nil, List.length_replicate, if_true, if_false, Bool.false_eq_true] at hjoin ⊢ <;>
    omega

theorem length_emptyObjectText (fmt : Bool) (depth : ℕ) :
    (emptyObjectText fmt depth).length < if fmt then depth + 4 else 3 := by
  cases fmt <;> simp [emptyObjectText, indent, lineEnd]

theorem zero_notMem_arrayText (fmt : Bool) {entries : List CText} (h : ∀ text ∈ entries, 0 ∉ text) :
    0 ∉ arrayText fmt entries := by
  have hjoin : 0 ∉ joinElements fmt entries := by
    induction entries with
    | nil => simp [joinElements]
    | cons entry entries ih =>
        have hentry := h entry List.mem_cons_self
        have hrest := ih fun text htext => h text (List.mem_cons_of_mem _ htext)
        cases entries with
        | nil => exact hentry
        | cons => cases fmt <;> simp [joinElements, arraySeparator, hentry, hrest]
  simp [arrayText, hjoin]

theorem zero_notMem_indent (fmt : Bool) (depth : ℕ) : 0 ∉ indent fmt depth := by
  cases fmt <;> simp [indent]

theorem zero_notMem_lineEnd (fmt : Bool) : 0 ∉ lineEnd fmt := by
  cases fmt <;> simp [lineEnd]

theorem zero_notMem_memberText (fmt : Bool) (depth : ℕ) {member : CText × CText}
    (h : 0 ∉ member.1 ∧ 0 ∉ member.2) : 0 ∉ memberText fmt depth member := by
  cases fmt <;> simp [memberText, indent, h.1, h.2]

theorem zero_notMem_objectText (fmt : Bool) (depth : ℕ) {members : List (CText × CText)}
    (h : ∀ member ∈ members, 0 ∉ member.1 ∧ 0 ∉ member.2) :
    0 ∉ objectText fmt depth members := by
  have hjoin : 0 ∉ joinMembers fmt (depth + 1) members := by
    induction members with
    | nil => simp [joinMembers]
    | cons member members ih =>
        have hmember := zero_notMem_memberText fmt (depth + 1) (h member List.mem_cons_self)
        have hrest := ih fun member hmem => h member (List.mem_cons_of_mem _ hmem)
        cases members with
        | nil => simp [joinMembers, hmember, zero_notMem_lineEnd]
        | cons => simp [joinMembers, hmember, hrest, zero_notMem_lineEnd]
  simp [objectText, hjoin, zero_notMem_indent, zero_notMem_lineEnd]

theorem zero_notMem_emptyObjectText (fmt : Bool) (depth : ℕ) : 0 ∉ emptyObjectText fmt depth := by
  simp [emptyObjectText, zero_notMem_indent, zero_notMem_lineEnd]

/-- The texts of blocks have no zero in them. -/
theorem zero_notMem_allTexts {blocks : List (Option TextBlock)} {texts : List CText}
    (h : allTexts blocks = some texts) : ∀ text ∈ texts, 0 ∉ text := by
  induction blocks generalizing texts with
  | nil =>
      obtain rfl : [] = texts := by simpa [allTexts] using h
      simp
  | cons block blocks ih =>
      cases block with
      | none => simp [allTexts] at h
      | some block =>
          cases hall : allTexts blocks with
          | none => simp [allTexts, hall] at h
          | some rest =>
              simp only [allTexts, hall, Option.bind_eq_bind, Option.bind_some,
                Option.some.injEq] at h
              subst h
              intro text htext
              rcases List.mem_cons.1 htext with rfl | htext
              · exact block.nonzero
              · exact ih hall text htext

/-! ### Printing an item -/

/-- **The texts of a chain were printed** on the way from one memory to another, unless a call of
`malloc` has failed. -/
structure PrintedAll (mem : ℕ → Bool) (heap : JsonHeap) (texts : List CText)
    (blocks : List (Option TextBlock)) (heap' : JsonHeap) : Prop where
  le : heap ≤ heap'
  texts : ∀ ts, allTexts blocks = some ts → ts = texts
  none : allTexts blocks = none → MallocFailed mem heap heap'

theorem printedAll_nil (mem : ℕ → Bool) (heap : JsonHeap) : PrintedAll mem heap [] [] heap :=
  ⟨le_rfl, by simp [allTexts], by simp [allTexts]⟩

/-- They were printed on a longer way, too. -/
theorem PrintedAll.mono {texts : List CText} {blocks : List (Option TextBlock)}
    {heap₀ heap' heap₁ : JsonHeap} (h : PrintedAll mem heap texts blocks heap')
    (hbefore : heap₀ ≤ heap) (hbehind : heap' ≤ heap₁) :
    PrintedAll mem heap₀ texts blocks heap₁ where
  le := hbefore.trans (h.le.trans hbehind)
  texts := h.texts
  none hout := (h.none hout).mono hbefore hbehind

/-- The first text was printed, and then the others. -/
theorem PrintedAll.cons {text : CText} {texts : List CText} {block : Option TextBlock}
    {blocks : List (Option TextBlock)} {heap' heap'' : JsonHeap}
    (hblock : Printed mem heap text block heap')
    (hblocks : PrintedAll mem heap' texts blocks heap'') :
    PrintedAll mem heap (text :: texts) (block :: blocks) heap'' := by
  refine ⟨hblock.le.trans hblocks.le, ?_, ?_⟩
  · cases block with
    | none => simp [allTexts]
    | some block =>
        have htext := hblock.text block rfl
        cases hall : allTexts blocks with
        | none => simp [allTexts, hall]
        | some ts => simp [allTexts, hall, htext, hblocks.texts ts hall]
  · intro hnone
    cases block with
    | none => exact (hblock.none rfl).mono le_rfl hblocks.le
    | some block =>
        cases hall : allTexts blocks with
        | none => exact (hblocks.none hall).mono hblock.le le_rfl
        | some ts => simp [allTexts, hall] at hnone

/-- The loop over the elements has stopped. -/
theorem PrintedAll.stopped {texts : List CText} {heap' : JsonHeap}
    (h : MallocFailed mem heap heap') : PrintedAll mem heap texts [Option.none] heap' :=
  ⟨h.le, by simp [allTexts], fun _ => h⟩

theorem composeArray_spec (mem : ℕ → Bool) (fmt : Bool) {texts : List CText} {heap₀ : JsonHeap}
    {entries : List (Option TextBlock)} {array : ℕ}
    (hentries : PrintedAll mem heap₀ texts entries heap)
    (hheld : heap.Holds (entries.flatMap textBlocks ++ ([array] ++ held))) :
    ∃ out heap', composeArray mem fmt entries array heap = .ok (out, heap') ∧
      heap'.Holds (textBlocks out ++ held) ∧ Printed mem heap₀ (arrayText fmt texts) out heap' := by
  unfold composeArray
  cases hall : allTexts entries with
  | none =>
      obtain ⟨heap', hrun, hheld', hle⟩ := composeOut_fail mem _ _ hheld
      exact ⟨none, heap', hrun, hheld', printed_none ((hentries.none hall).mono le_rfl hle)⟩
  | some ts =>
      have hts := hentries.texts ts hall
      subst hts
      obtain ⟨out, heap', hrun, hheld', hprinted⟩ := composeOut_spec mem (length_arrayText fmt ts)
        (zero_notMem_arrayText fmt (zero_notMem_allTexts hall)) hheld
      exact ⟨out, heap', hrun, hheld', hprinted.mono hentries.le le_rfl⟩

theorem composeObject_spec (mem : ℕ → Bool) (fmt : Bool) (depth : ℕ) {names texts : List CText}
    {heap₀ : JsonHeap} {members : List (Option TextBlock × Option TextBlock)} {entries array : ℕ}
    (hnames : PrintedAll mem heap₀ names (members.map Prod.fst) heap)
    (htexts : PrintedAll mem heap₀ texts (members.map Prod.snd) heap)
    (hheld : heap.Holds ((members.flatMap fun member => [member.1, member.2]).flatMap textBlocks ++
      ([array, entries] ++ held))) :
    ∃ out heap', composeObject mem fmt depth members entries array heap = .ok (out, heap') ∧
      heap'.Holds (textBlocks out ++ held) ∧
      Printed mem heap₀ (objectText fmt depth (names.zip texts)) out heap' := by
  unfold composeObject
  cases hallNames : allTexts (members.map Prod.fst) with
  | none =>
      obtain ⟨heap', hrun, hheld', hle⟩ := composeOut_fail mem _ _ hheld
      exact ⟨none, heap', hrun, hheld', printed_none ((hnames.none hallNames).mono le_rfl hle)⟩
  | some ns =>
      cases hallTexts : allTexts (members.map Prod.snd) with
      | none =>
          obtain ⟨heap', hrun, hheld', hle⟩ := composeOut_fail mem _ _ hheld
          exact ⟨none, heap', hrun, hheld', printed_none ((htexts.none hallTexts).mono le_rfl hle)⟩
      | some ts =>
          have hns := hnames.texts ns hallNames
          have hts := htexts.texts ts hallTexts
          subst hns hts
          have hzero : 0 ∉ objectText fmt depth (ns.zip ts) := by
            refine zero_notMem_objectText fmt depth ?_
            rintro ⟨name, text⟩ hmem
            obtain ⟨hname, htext⟩ := List.of_mem_zip hmem
            exact ⟨zero_notMem_allTexts hallNames name hname,
              zero_notMem_allTexts hallTexts text htext⟩
          obtain ⟨out, heap', hrun, hheld', hprinted⟩ :=
            composeOut_spec mem (length_objectText fmt depth _) hzero hheld
          exact ⟨out, heap', hrun, hheld', hprinted.mono hnames.le le_rfl⟩

theorem memberTexts_eq_zip (A : Doubles D) (fmt : Bool) (chain : List (JsonItem D)) (depth : ℕ) :
    memberTexts A fmt chain depth =
      (chain.map fun child => stringText child.string).zip (chainTexts A fmt chain depth) := by
  induction chain with
  | nil => rw [memberTexts, chainTexts, List.zip_nil_right]
  | cons child next ih => rw [memberTexts, chainTexts, ih, List.map_cons, List.zip_cons_cons]

mutual

/-- **Printing an item never writes behind a block**, whatever calls of `malloc` fail.  What is
held behind it is the block of the text, if there is one, and nothing else. -/
theorem print_spec (A : Doubles D) (mem : ℕ → Bool) (fmt : Bool) :
    ∀ (item : JsonItem D) (depth : ℕ) {heap : JsonHeap} {held : List ℕ}, heap.Holds held →
      ∃ out heap', item.print A mem fmt depth heap = .ok (out, heap') ∧
        heap'.Holds (textBlocks out ++ held) ∧ Printed mem heap (item.text A fmt depth) out heap'
  | ⟨_, type, valuestring, valueint, valuedouble, _, child⟩, depth, heap, held, hheld => by
      have hword : ∀ word : CText, 0 ∉ word → ∃ out heap',
          (.ok (cJsonStrdup mem word heap) : Except JsonFault (Option TextBlock × JsonHeap)) =
            .ok (out, heap') ∧ heap'.Holds (textBlocks out ++ held) ∧
            Printed mem heap word out heap' := by
        intro word hzero
        obtain ⟨out, heap', hcall, hprinted⟩ := cJsonStrdup_printed mem hzero hheld
        exact ⟨out, heap', by rw [hcall], hprinted⟩
      cases type with
      | null =>
          rw [JsonItem.print, JsonItem.text]
          exact hword (literal "null") (by decide)
      | false =>
          rw [JsonItem.print, JsonItem.text]
          exact hword (literal "false") (by decide)
      | true =>
          rw [JsonItem.print, JsonItem.text]
          exact hword (literal "true") (by decide)
      | number =>
          rw [JsonItem.print, JsonItem.text]
          exact cJsonPrintNumber_spec A mem valueint valuedouble hheld
      | string =>
          rw [JsonItem.print, JsonItem.text]
          exact printStringPtr_spec mem valuestring hheld
      | array =>
          rw [JsonItem.print, JsonItem.text]
          cases child with
          | nil =>
              rw [chainTexts]
              exact printText_spec mem (by cases fmt <;> decide) (by cases fmt <;> decide) hheld
          | cons child next =>
              rcases cJsonMalloc_spec mem hheld with ⟨heap', hcall, hheld', hfail⟩ |
                ⟨array, heap', hcall, hheld', hle⟩
              · exact ⟨none, heap', by simp [hcall], hheld', printed_none hfail⟩
              · -- the array that leads to the texts is held while they are printed
                obtain ⟨entries, heap'', hrun, hheld'', hall⟩ :=
                  printEntries_spec A mem fmt (child :: next) (depth + 1) hheld'
                simp only [List.isEmpty_cons, Bool.false_eq_true, if_false, hcall, hrun, bind,
                  Except.bind]
                exact composeArray_spec mem fmt (hall.mono hle le_rfl) hheld''
      | object =>
          rw [JsonItem.print, JsonItem.text]
          cases child with
          | nil =>
              exact printText_spec mem (length_emptyObjectText fmt depth)
                (zero_notMem_emptyObjectText fmt depth) hheld
          | cons child next =>
              rcases cJsonMalloc_spec mem hheld with ⟨heap', hcall, hheld', hfail⟩ |
                ⟨entries, heap', hcall, hheld', hle⟩
              · exact ⟨none, heap', by simp [hcall], hheld', printed_none hfail⟩
              · rcases cJsonMalloc_spec mem hheld' with ⟨heap'', hcall', hheld'', hfail⟩ |
                  ⟨names, heap'', hcall', hheld'', hle'⟩
                · -- without the array for the names, the one for the texts is given back
                  exact ⟨none, cJsonFree entries heap'', by simp [hcall, hcall'],
                    hheld''.free, printed_none (hfail.mono hle (le_refl heap''.asked))⟩
                · obtain ⟨members, heap₃, hrun, hheld₃, hnames, htexts⟩ :=
                    printMembers_spec A mem fmt (child :: next) (depth + 1) hheld''
                  have hbefore := hle.trans hle'
                  simp only [List.isEmpty_cons, Bool.false_eq_true, if_false, hcall, hcall',
                    hrun, bind, Except.bind, memberTexts_eq_zip]
                  exact composeObject_spec mem fmt depth (hnames.mono hbefore le_rfl)
                    (htexts.mono hbefore le_rfl) hheld₃

/-- The loop over the children of an array. -/
theorem printEntries_spec (A : Doubles D) (mem : ℕ → Bool) (fmt : Bool) :
    ∀ (chain : List (JsonItem D)) (depth : ℕ) {heap : JsonHeap} {held : List ℕ},
      heap.Holds held →
      ∃ entries heap', printEntries A mem fmt chain depth heap = .ok (entries, heap') ∧
        heap'.Holds (entries.flatMap textBlocks ++ held) ∧
        PrintedAll mem heap (chainTexts A fmt chain depth) entries heap'
  | [], _, heap, _, hheld => by
      rw [printEntries, chainTexts]
      exact ⟨[], heap, rfl, hheld, printedAll_nil mem heap⟩
  | child :: next, depth, heap, held, hheld => by
      rw [printEntries, chainTexts]
      obtain ⟨ret, heap', hrun, hheld', hprinted⟩ := print_spec A mem fmt child depth hheld
      cases ret with
      | none =>
          -- `print_array` stops at the first text that it does not get
          refine ⟨[none], heap', by simp only [hrun, bind, Except.bind], ?_,
            PrintedAll.stopped (hprinted.none rfl)⟩
          simpa using hheld'
      | some ret =>
          obtain ⟨entries, heap'', hrun', hheld'', hall⟩ :=
            printEntries_spec A mem fmt next depth hheld'
          refine ⟨some ret :: entries, heap'', by simp only [hrun, hrun', bind, Except.bind], ?_,
            PrintedAll.cons hprinted hall⟩
          refine hheld''.perm ?_
          rw [List.flatMap_cons, ← List.append_assoc]
          exact List.perm_append_comm.append_right held

/-- The loop over the children of an object. -/
theorem printMembers_spec (A : Doubles D) (mem : ℕ → Bool) (fmt : Bool) :
    ∀ (chain : List (JsonItem D)) (depth : ℕ) {heap : JsonHeap} {held : List ℕ},
      heap.Holds held →
      ∃ members heap', printMembers A mem fmt chain depth heap = .ok (members, heap') ∧
        heap'.Holds ((members.flatMap fun member => [member.1, member.2]).flatMap textBlocks ++
          held) ∧
        PrintedAll mem heap (chain.map fun child => stringText child.string)
          (members.map Prod.fst) heap' ∧
        PrintedAll mem heap (chainTexts A fmt chain depth) (members.map Prod.snd) heap'
  | [], _, heap, _, hheld => by
      rw [printMembers, chainTexts]
      exact ⟨[], heap, rfl, hheld, printedAll_nil mem heap, printedAll_nil mem heap⟩
  | child :: next, depth, heap, held, hheld => by
      rw [printMembers, chainTexts]
      obtain ⟨str, heap₁, hname, hheld₁, hprintedName⟩ :=
        printStringPtr_spec mem child.string hheld
      obtain ⟨ret, heap₂, hrun, hheld₂, hprinted⟩ := print_spec A mem fmt child depth hheld₁
      -- `print_object` goes on, and finds at the end that a text is missing
      obtain ⟨members, heap₃, hmembers, hheld₃, hnames, htexts⟩ :=
        printMembers_spec A mem fmt next depth hheld₂
      refine ⟨(str, ret) :: members, heap₃, ?_, ?_,
        PrintedAll.cons (hprintedName.mono le_rfl hprinted.le) hnames,
        PrintedAll.cons (hprinted.mono hprintedName.le le_rfl) htexts⟩
      · simp only [hname, hrun, hmembers, bind, Except.bind]
      · refine hheld₃.perm ?_
        simp only [List.flatMap_cons, List.flatMap_append, List.flatMap_nil, List.append_nil,
          List.append_assoc]
        have hlast := List.perm_append_comm_assoc (textBlocks ret)
          ((members.flatMap fun member => [member.1, member.2]).flatMap textBlocks)
          (textBlocks str ++ held)
        refine List.Perm.trans ?_ hlast
        refine (List.perm_append_comm_assoc (textBlocks str) (textBlocks ret) _).trans ?_
        exact (List.perm_append_comm_assoc (textBlocks str) _ held).append_left (textBlocks ret)

end

/-- An object with a member that lacks a name. -/
def unnamedMember : JsonItem ℚ :=
  ⟨0, .object, none, 0, 0, none, [⟨1, .string, none, 0, 0, none, []⟩]⟩

end Wsn
