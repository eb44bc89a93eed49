/-
**The items of cJSON.**

An item is a block of memory, and so are its `valuestring` and its name.  A container leads to a
chain of items, so that an item owns a tree of blocks, which `cJSON_Delete` walks through.

The numbers of the items are doubles.  Their arithmetic, which rounds, is a parameter.

Main definitions:

* `JsonFault` — why a function of cJSON does not return;
* `JsonHeap`, `cJsonMalloc`, `cJsonFree` — the memory; `MallocFailed` — a call of it has failed;
* `JsonItem`, `cJsonNewItem`, `cJsonDelete` — the items;
* `Json`, `JsonItem.value` — a value, and what an item stands for;
* `JsonItem.blocks`, `chainBlocks` — the blocks that an item and a chain own.

Main results:

* `cJsonMalloc_spec`, `JsonHeap.Holds.free` — what a call does to the blocks that are held;
* `cJsonDelete_holds` — **a chain is deleted with all that it owns, each block once**.
-/

import WsnPlatform.Ledger
import WsnPlatform.PrintfDouble

set_option relaxedAutoImplicit false
set_option autoImplicit false

namespace Wsn

/-! ### The memory -/

/-- Why a function of cJSON does not return. -/
inductive JsonFault
  /-- It reads behind the memory that a text lies in. -/
  | overread
  /-- It writes behind a block. -/
  | overflow
  /-- It follows a pointer that is `NULL`. -/
  | nullDeref
  /-- A value does not fit into an `int`. -/
  | intOverflow
  /-- The turns that it was given are used up. -/
  | stuck
  deriving DecidableEq

/-- **The memory**: how often it was asked for a block, and the blocks that it has handed out. -/
structure JsonHeap where
  asked : ℕ
  ledger : Ledger

/-- The memory before the first call. -/
def JsonHeap.start : JsonHeap := ⟨0, .empty⟩

/-- A memory comes behind another one if it was asked at least as often. -/
instance : Preorder JsonHeap := Preorder.lift JsonHeap.asked

/-- The blocks that are held. -/
def JsonHeap.Holds (heap : JsonHeap) (held : List ℕ) : Prop := heap.ledger.Holds held

/-- **`cJSON_malloc`**; `mem` tells which of the calls succeed. -/
def cJsonMalloc (mem : ℕ → Bool) (heap : JsonHeap) : Option ℕ × JsonHeap :=
  if mem heap.asked then (some heap.ledger.issued, ⟨heap.asked + 1, heap.ledger.issue⟩)
  else (none, ⟨heap.asked + 1, heap.ledger⟩)

/-- **A call of `malloc` has failed** between the one memory and the other. -/
def MallocFailed (mem : ℕ → Bool) (heap heap' : JsonHeap) : Prop :=
  ∃ k, heap.asked ≤ k ∧ k < heap'.asked ∧ mem k = false

/-- **`cJSON_free`**. -/
def cJsonFree (ptr : ℕ) (heap : JsonHeap) : JsonHeap :=
  { heap with ledger := heap.ledger.release ptr }

/-- A block with a text in it, which ends at the first zero. -/
structure TextBlock where
  addr : ℕ
  text : CText
  nonzero : 0 ∉ text
  deriving DecidableEq

/-- The text in a block, if bytes and a zero behind them were written into it. -/
def TextBlock.of (ptr : ℕ) (bytes : List UInt8) : TextBlock :=
  ⟨ptr, textOf bytes, zero_notMem_textOf bytes⟩

@[simp] theorem TextBlock.addr_of (ptr : ℕ) (bytes : List UInt8) :
    (TextBlock.of ptr bytes).addr = ptr := rfl

/-- Bytes are written into a block of `size` bytes, with a zero behind them. -/
def writeText (ptr size : ℕ) (bytes : List UInt8) : Except JsonFault TextBlock :=
  if bytes.length < size then .ok (.of ptr bytes) else .error .overflow

/-- **`cJSON_strdup`**. -/
def cJsonStrdup (mem : ℕ → Bool) (str : CText) (heap : JsonHeap) : Option TextBlock × JsonHeap :=
  let (copy, heap) := cJsonMalloc mem heap
  (copy.map fun ptr => .of ptr str, heap)

/-! ### The items -/

/-- The `type` of an item. -/
inductive JsonType
  | false
  | true
  | null
  | number
  | string
  | array
  | object
  deriving DecidableEq

/-- **The arithmetic of doubles**, as far as cJSON uses it. -/
structure Doubles (D : Type) where
  zero : D
  /-- `(double)i`. -/
  ofInt : ℤ → D
  /-- `(n*10.0)+d`. -/
  digit : D → ℕ → D
  /-- `sign*n*pow(10.0,e)`; the sign is `-1` if it is `true`. -/
  scaled : Bool → D → ℤ → D
  /-- `(int)n`. -/
  toInt : D → ℤ
  /-- What is compared and printed. -/
  value : D → DoubleValue

/-- A number as a double: if it is too large it is an infinity, and if it is too small it is zero.
-/
def exactValue (q : ℚ) : DoubleValue :=
  if h : |q| = 0 ∨ 1 / 2 ^ 1074 ≤ |q| ∧ |q| < 2 ^ 1024 then .finite (q < 0) ⟨|q|, h⟩
  else if |q| < 1 then .finite (q < 0) ⟨0, Or.inl rfl⟩
  else .infinite (q < 0)

/-- An arithmetic that does not round. -/
def exactDoubles : Doubles ℚ where
  zero := 0
  ofInt i := i
  digit n d := n * 10 + d
  scaled sign n e := (if sign then -n else n) * 10 ^ e
  toInt n := n.num.tdiv n.den
  value := exactValue

variable {D : Type}

/-- **`cJSON`**: the block, its fields, and the chain of its children. -/
structure JsonItem (D : Type) where
  addr : ℕ
  type : JsonType
  valuestring : Option TextBlock
  valueint : ℤ
  valuedouble : D
  /-- The name of a member. -/
  string : Option TextBlock
  child : List (JsonItem D)

/-- The item that `cJSON_New_Item` makes of a block. -/
def JsonItem.fresh (A : Doubles D) (addr : ℕ) : JsonItem D :=
  ⟨addr, .false, none, 0, A.zero, none, []⟩

/-- **`cJSON_New_Item`**. -/
def cJsonNewItem (A : Doubles D) (mem : ℕ → Bool) (heap : JsonHeap) :
    Option (JsonItem D) × JsonHeap :=
  let (node, heap) := cJsonMalloc mem heap
  (node.map (JsonItem.fresh A), heap)

/-- A block is freed if it is there. -/
def freeText (block : Option TextBlock) (heap : JsonHeap) : JsonHeap :=
  match block with
  | none => heap
  | some block => cJsonFree block.addr heap

mutual

/-- An item is deleted: its children first, then its texts, and itself. -/
def JsonItem.delete : JsonItem D → JsonHeap → JsonHeap
  | ⟨addr, _, valuestring, _, _, string, child⟩, heap =>
      cJsonFree addr (freeText string (freeText valuestring (cJsonDelete child heap)))

/-- **`cJSON_Delete`**, on a chain of items. -/
def cJsonDelete : List (JsonItem D) → JsonHeap → JsonHeap
  | [], heap => heap
  | c :: next, heap => cJsonDelete next (c.delete heap)

end

/-! ### What an item stands for -/

/-- **A JSON value.** -/
inductive Json (D : Type)
  | null
  | bool (b : Bool)
  | number (d : D)
  | string (text : CText)
  | array (elements : List (Json D))
  | object (members : List (CText × Json D))

mutual

/-- **The value of an item**, unless it lacks a text. -/
def JsonItem.value : JsonItem D → Option (Json D)
  | ⟨_, type, valuestring, _, valuedouble, _, child⟩ =>
      match type with
      | .null => some .null
      | .false => some (.bool false)
      | .true => some (.bool true)
      | .number => some (.number valuedouble)
      | .string => valuestring.map fun block => .string block.text
      | .array => (chainValues child).map .array
      | .object => (chainMembers child).map .object

/-- The values of a chain. -/
def chainValues : List (JsonItem D) → Option (List (Json D))
  | [] => some []
  | c :: next => do
      let v ← c.value
      let vs ← chainValues next
      some (v :: vs)

/-- The values of a chain with their names. -/
def chainMembers : List (JsonItem D) → Option (List (CText × Json D))
  | [] => some []
  | c :: next => do
      let name ← c.string
      let v ← c.value
      let vs ← chainMembers next
      some ((name.text, v) :: vs)

end

/-! ### What an item owns -/

/-- The block of a text, if it is there. -/
def textBlocks (block : Option TextBlock) : List ℕ := (block.map TextBlock.addr).toList

mutual

/-- **The blocks that an item owns.** -/
def JsonItem.blocks : JsonItem D → List ℕ
  | ⟨addr, _, valuestring, _, _, string, child⟩ =>
      chainBlocks child ++ (textBlocks valuestring ++ (textBlocks string ++ [addr]))

/-- The blocks that a chain owns. -/
def chainBlocks : List (JsonItem D) → List ℕ
  | [] => []
  | c :: next => c.blocks ++ chainBlocks next

end

@[simp] theorem textBlocks_none : textBlocks none = [] := rfl

@[simp] theorem textBlocks_some (block : TextBlock) : textBlocks (some block) = [block.addr] := rfl

@[simp] theorem chainBlocks_nil : chainBlocks ([] : List (JsonItem D)) = [] := by
  rw [chainBlocks]

@[simp] theorem chainBlocks_cons (c : JsonItem D) (next : List (JsonItem D)) :
    chainBlocks (c :: next) = c.blocks ++ chainBlocks next := by
  rw [chainBlocks]

/-- The blocks of an item, by its fields. -/
theorem JsonItem.blocks_eq (item : JsonItem D) :
    item.blocks = chainBlocks item.child ++
      (textBlocks item.valuestring ++ (textBlocks item.string ++ [item.addr])) := by
  cases item
  rw [JsonItem.blocks]

@[simp] theorem JsonItem.blocks_fresh (A : Doubles D) (addr : ℕ) :
    (JsonItem.fresh A addr).blocks = [addr] := by
  simp [JsonItem.blocks_eq, JsonItem.fresh]

theorem JsonHeap.holds_start : JsonHeap.start.Holds [] := Ledger.holds_empty

variable {mem : ℕ → Bool} {heap : JsonHeap} {held : List ℕ}

theorem JsonHeap.Holds.perm {held' : List ℕ} (h : heap.Holds held) (hperm : held'.Perm held) :
    heap.Holds held' :=
  Ledger.Holds.perm h hperm

/-- A call that has failed on a part of the way has failed on the whole of it. -/
theorem MallocFailed.mono {heap₀ heap' heap₁ : JsonHeap} (h : MallocFailed mem heap heap')
    (hbefore : heap₀ ≤ heap) (hbehind : heap' ≤ heap₁) : MallocFailed mem heap₀ heap₁ := by
  obtain ⟨k, hlow, hhigh, hk⟩ := h
  exact ⟨k, le_trans hbefore hlow, lt_of_lt_of_le hhigh hbehind, hk⟩

theorem MallocFailed.le {heap' : JsonHeap} (h : MallocFailed mem heap heap') : heap ≤ heap' := by
  obtain ⟨k, hlow, hhigh, -⟩ := h
  exact hlow.trans hhigh.le

/-- Where every call succeeds none has failed. -/
theorem not_mallocFailed (hmem : ∀ k, mem k = true) (heap heap' : JsonHeap) :
    ¬ MallocFailed mem heap heap' := by
  rintro ⟨k, -, -, hk⟩
  simp [hmem] at hk

/-- **A call of `malloc`** returns `NULL`, or a block that is held from then on. -/
theorem cJsonMalloc_spec (mem : ℕ → Bool) (h : heap.Holds held) :
    (∃ heap', cJsonMalloc mem heap = (none, heap') ∧ heap'.Holds held ∧
        MallocFailed mem heap heap') ∨
      ∃ addr heap', cJsonMalloc mem heap = (some addr, heap') ∧ heap'.Holds (addr :: held) ∧
        heap ≤ heap' := by
  have hnext : heap.asked < heap.asked + 1 := Nat.lt_succ_self _
  unfold cJsonMalloc
  cases hmem : mem heap.asked with
  | false => exact Or.inl ⟨_, if_neg (by simp), h, heap.asked, le_rfl, hnext, hmem⟩
  | true => exact Or.inr ⟨_, _, if_pos rfl, Ledger.Holds.issue h, hnext.le⟩

theorem cJsonMalloc_none {heap' : JsonHeap} (h : cJsonMalloc mem heap = (none, heap')) :
    MallocFailed mem heap heap' := by
  unfold cJsonMalloc at h
  cases hmem : mem heap.asked with
  | false =>
      rw [hmem] at h
      cases h
      exact ⟨heap.asked, le_rfl, Nat.lt_succ_self _, hmem⟩
  | true => simp [hmem] at h

theorem cJsonMalloc_some {heap' : JsonHeap} {addr : ℕ}
    (h : cJsonMalloc mem heap = (some addr, heap')) : heap ≤ heap' := by
  unfold cJsonMalloc at h
  split at h
  · cases h
    exact Nat.le_succ heap.asked
  · cases h

/-- **A block that is freed** is no longer held. -/
theorem JsonHeap.Holds.free {ptr : ℕ} (h : heap.Holds (ptr :: held)) :
    (cJsonFree ptr heap).Holds held :=
  Ledger.Holds.release h

theorem freeText_holds {block : Option TextBlock} (h : heap.Holds (textBlocks block ++ held)) :
    (freeText block heap).Holds held := by
  cases block with
  | none => exact h
  | some block => exact JsonHeap.Holds.free h

/-- **`cJSON_New_Item`** returns `NULL`, or a fresh item. -/
theorem cJsonNewItem_spec (A : Doubles D) (mem : ℕ → Bool) (h : heap.Holds held) :
    (∃ heap', cJsonNewItem A mem heap = (none, heap') ∧ heap'.Holds held ∧
        MallocFailed mem heap heap') ∨
      ∃ addr heap', cJsonNewItem A mem heap = (some (.fresh A addr), heap') ∧
        heap'.Holds ((JsonItem.fresh A addr).blocks ++ held) ∧ heap ≤ heap' := by
  unfold cJsonNewItem
  rcases cJsonMalloc_spec mem h with ⟨heap', hcall, hheld, hfail⟩ |
    ⟨addr, heap', hcall, hheld, hle⟩
  · exact Or.inl ⟨heap', by rw [hcall]; rfl, hheld, hfail⟩
  · exact Or.inr ⟨addr, heap', by rw [hcall]; rfl, by simpa using hheld, hle⟩

theorem cJsonNewItem_none {A : Doubles D} {heap' : JsonHeap}
    (h : cJsonNewItem A mem heap = (none, heap')) : MallocFailed mem heap heap' := by
  simp only [cJsonNewItem, Prod.mk.injEq, Option.map_eq_none_iff] at h
  exact cJsonMalloc_none (Prod.ext h.1 h.2)

theorem cJsonNewItem_some {A : Doubles D} {heap' : JsonHeap} {item : JsonItem D}
    (h : cJsonNewItem A mem heap = (some item, heap')) :
    (∃ addr, item = .fresh A addr) ∧ heap ≤ heap' := by
  simp only [cJsonNewItem, Prod.mk.injEq, Option.map_eq_some_iff] at h
  obtain ⟨⟨addr, haddr, rfl⟩, hheap⟩ := h
  exact ⟨⟨addr, rfl⟩, cJsonMalloc_some (Prod.ext haddr hheap)⟩

/-- **`cJSON_strdup`** returns `NULL`, or a block with the text in it. -/
theorem cJsonStrdup_spec (mem : ℕ → Bool) (str : CText) (h : heap.Holds held) :
    (∃ heap', cJsonStrdup mem str heap = (none, heap') ∧ heap'.Holds held ∧
        MallocFailed mem heap heap') ∨
      ∃ addr heap', cJsonStrdup mem str heap = (some (.of addr str), heap') ∧
        heap'.Holds (addr :: held) ∧ heap ≤ heap' := by
  unfold cJsonStrdup
  rcases cJsonMalloc_spec mem h with ⟨heap', hcall, hheld, hfail⟩ |
    ⟨addr, heap', hcall, hheld, hle⟩
  · exact Or.inl ⟨heap', by rw [hcall]; rfl, hheld, hfail⟩
  · exact Or.inr ⟨addr, heap', by rw [hcall]; rfl, hheld, hle⟩

theorem asked_freeText (block : Option TextBlock) (heap : JsonHeap) :
    (freeText block heap).asked = heap.asked := by
  cases block <;> rfl

mutual

theorem JsonItem.asked_delete : ∀ (item : JsonItem D) (heap : JsonHeap),
    (item.delete heap).asked = heap.asked
  | ⟨addr, _, valuestring, _, _, string, child⟩, heap => by
      rw [JsonItem.delete, cJsonFree, asked_freeText, asked_freeText, asked_cJsonDelete]

/-- Deleting asks for nothing. -/
theorem asked_cJsonDelete : ∀ (chain : List (JsonItem D)) (heap : JsonHeap),
    (cJsonDelete chain heap).asked = heap.asked
  | [], heap => by rw [cJsonDelete]
  | c :: next, heap => by rw [cJsonDelete, asked_cJsonDelete, JsonItem.asked_delete]

end

mutual

theorem JsonItem.delete_holds : ∀ (item : JsonItem D) {heap : JsonHeap} {held : List ℕ},
    heap.Holds (item.blocks ++ held) → (item.delete heap).Holds held
  | ⟨addr, _, valuestring, _, _, string, child⟩, heap, held, h => by
      rw [JsonItem.blocks] at h
      simp only [List.append_assoc] at h
      rw [JsonItem.delete]
      exact (freeText_holds (freeText_holds (cJsonDelete_holds child h))).free

/-- **A chain is deleted with all that it owns**, each block once. -/
theorem cJsonDelete_holds : ∀ (chain : List (JsonItem D)) {heap : JsonHeap} {held : List ℕ},
    heap.Holds (chainBlocks chain ++ held) → (cJsonDelete chain heap).Holds held
  | [], _, _, h => by
      rw [cJsonDelete]
      simpa using h
  | c :: next, _, _, h => by
      rw [chainBlocks_cons, List.append_assoc] at h
      rw [cJsonDelete]
      exact cJsonDelete_holds next (c.delete_holds h)

end

end Wsn
