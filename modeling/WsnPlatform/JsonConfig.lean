/-
**From the generator's tree to the deployer's configuration.**

`config_json_generator` builds a tree of a user name, a password and so on, prints it, and writes
the text into a file.  The deployer parses the file and looks the members up.  Between the two there
is the text only, and what is lost on the way would be lost in the grammar, in an escape or in a
name.

Main definitions:

* `cJsonCreate`, `cJsonCreateString`, `cJsonCreateStringArray`, `cJsonAddItemToObject` — how a tree
  is built;
* `Settings`, `generateConfig` — the generator, on any settings;
* `JsonItem.cjson`, `Json.cjson` — what the deployer looks at;
* `Settings.CallsSucceed`, `Settings.LoadedAs` — the calls of the deployer, and what it is to load.

Main results:

* `generateConfig_spec` — the generator writes a text of the grammar, and leaves no block behind;
* `JsonItem.cjson_eq` — what the deployer looks at is the value;
* `deployerParseConfigFile_settings` — what the deployer makes of the value;
* `generateConfig_loaded` — **a generated configuration is loaded as it was generated**.
-/

import WsnPlatform.ConfigJson
import WsnPlatform.JsonRoundTrip

set_option relaxedAutoImplicit false
set_option autoImplicit false

namespace Wsn

open LineScan

variable {D : Type}

/-! ### Building a tree -/

/-- `cJSON_CreateObject` and `cJSON_CreateArray`. -/
def cJsonCreate (A : Doubles D) (mem : ℕ → Bool) (type : JsonType) (heap : JsonHeap) :
    Option (JsonItem D) × JsonHeap :=
  let (item, heap) := cJsonNewItem A mem heap
  (item.map fun item => { item with type := type }, heap)

/-- **`cJSON_CreateString`**.  The item stays without a text if `cJSON_strdup` fails. -/
def cJsonCreateString (A : Doubles D) (mem : ℕ → Bool) (string : CText) (heap : JsonHeap) :
    Option (JsonItem D) × JsonHeap :=
  match cJsonNewItem A mem heap with
  | (none, heap) => (none, heap)
  | (some item, heap) =>
      let (valuestring, heap) := cJsonStrdup mem string heap
      (some { item with type := .string, valuestring := valuestring }, heap)

/-- The loop of `cJSON_CreateStringArray` behind the first string: `suffix_object` writes into the
item before and into the new one, which may be `NULL`. -/
def suffixStrings (A : Doubles D) (mem : ℕ → Bool) :
    List CText → JsonHeap → Except JsonFault (List (JsonItem D) × JsonHeap)
  | [], heap => .ok ([], heap)
  | string :: strings, heap =>
      match cJsonCreateString A mem string heap with
      | (none, _) => .error .nullDeref
      | (some n, heap) => do
          let (next, heap) ← suffixStrings A mem strings heap
          .ok (n :: next, heap)

/-- **`cJSON_CreateStringArray`**. -/
def cJsonCreateStringArray (A : Doubles D) (mem : ℕ → Bool) (strings : List CText)
    (heap : JsonHeap) : Except JsonFault (Option (JsonItem D) × JsonHeap) :=
  match cJsonCreate A mem .array heap with
  | (none, heap) => .ok (none, heap)
  | (some a, heap) =>
      match strings with
      | [] => .ok (some a, heap)
      | string :: strings =>
          match cJsonCreateString A mem string heap with
          | (none, heap) =>
              -- the next turn writes behind `p`, which is `NULL`
              if strings = [] then .ok (some a, heap) else .error .nullDeref
          | (some n, heap) => do
              let (next, heap) ← suffixStrings A mem strings heap
              .ok (some { a with child := n :: next }, heap)

/-- **`cJSON_AddItemToObject`**, with `cJSON_AddItemToArray` behind it. -/
def cJsonAddItemToObject (mem : ℕ → Bool) (object : Option (JsonItem D)) (string : CText)
    (item : Option (JsonItem D)) (heap : JsonHeap) :
    Except JsonFault (Option (JsonItem D) × JsonHeap) :=
  match item with
  | none => .ok (object, heap)
  | some item =>
      let (name, heap) := cJsonStrdup mem string (freeText item.string heap)
      match object with
      | none => .error .nullDeref
      | some object =>
          .ok (some { object with child := object.child ++ [{ item with string := name }] }, heap)

/-- `cJSON_AddStringToObject`. -/
def cJsonAddStringToObject (A : Doubles D) (mem : ℕ → Bool) (object : Option (JsonItem D))
    (name string : CText) (heap : JsonHeap) : Except JsonFault (Option (JsonItem D) × JsonHeap) :=
  let (item, heap) := cJsonCreateString A mem string heap
  cJsonAddItemToObject mem object name item heap

/-! ### The generator -/

/-- **What the generator writes down**, which are constants in its source. -/
structure Settings where
  ftpUsername : CText
  ftpPassword : CText
  telnetUsername : CText
  telnetPassword : CText
  telnetCommand : CText
  targets : List CText
  files : List CText
  nonzero : ∀ text ∈ [ftpUsername, ftpPassword, telnetUsername, telnetPassword, telnetCommand] ++
    (targets ++ files), 0 ∉ text
  targets_ne : targets ≠ []
  files_ne : files ≠ []

/-- The section `ftp`. -/
def generateFtp (A : Doubles D) (mem : ℕ → Bool) (S : Settings) (heap : JsonHeap) :
    Except JsonFault (Option (JsonItem D) × JsonHeap) := do
  let (ftp, heap) := cJsonCreate A mem .object heap
  let (ftp, heap) ← cJsonAddStringToObject A mem ftp confJsonFtpUsername S.ftpUsername heap
  cJsonAddStringToObject A mem ftp confJsonFtpPassword S.ftpPassword heap

/-- The section `telnet`. -/
def generateTelnet (A : Doubles D) (mem : ℕ → Bool) (S : Settings) (heap : JsonHeap) :
    Except JsonFault (Option (JsonItem D) × JsonHeap) := do
  let (telnet, heap) := cJsonCreate A mem .object heap
  let (telnet, heap) ←
    cJsonAddStringToObject A mem telnet confJsonTelnetUsername S.telnetUsername heap
  let (telnet, heap) ←
    cJsonAddStringToObject A mem telnet confJsonTelnetPassword S.telnetPassword heap
  cJsonAddStringToObject A mem telnet confJsonTelnetCommand S.telnetCommand heap

/-- The root with its four members. -/
def generateRoot (A : Doubles D) (mem : ℕ → Bool) (S : Settings) (heap : JsonHeap) :
    Except JsonFault (Option (JsonItem D) × JsonHeap) := do
  let (ftp, heap) ← generateFtp A mem S heap
  let (telnet, heap) ← generateTelnet A mem S heap
  let (targets, heap) ← cJsonCreateStringArray A mem S.targets heap
  let (files, heap) ← cJsonCreateStringArray A mem S.files heap
  let (root, heap) := cJsonCreate A mem .object heap
  let (root, heap) ← cJsonAddItemToObject mem root confJsonFtp ftp heap
  let (root, heap) ← cJsonAddItemToObject mem root confJsonTelnet telnet heap
  let (root, heap) ← cJsonAddItemToObject mem root confJsonDeployTargets targets heap
  cJsonAddItemToObject mem root confJsonDeployFiles files heap

/-- **The generator**, from its first item to the last block that it frees: the text that it writes
into the file.  `cJSON_Print` of `NULL` is `NULL`, and so is what `strlen` is handed then. -/
def generateConfig (A : Doubles D) (mem : ℕ → Bool) (S : Settings) (heap : JsonHeap) :
    Except JsonFault (CText × JsonHeap) := do
  let (root, heap) ← generateRoot A mem S heap
  match root with
  | none => .error .nullDeref
  | some root => do
      let (out, heap) ← cJsonPrint A mem true root heap
      match out with
      | none => .error .nullDeref
      | some out => .ok (out.text, cJsonFree out.addr (cJsonDelete [root] heap))

/-- A list of texts. -/
def textArray (texts : List CText) : Json D := .array (texts.map .string)

/-- The section `ftp` of the value. -/
def Settings.ftp (S : Settings) : Json D :=
  .object [(confJsonFtpUsername, .string S.ftpUsername),
    (confJsonFtpPassword, .string S.ftpPassword)]

/-- The section `telnet` of the value. -/
def Settings.telnet (S : Settings) : Json D :=
  .object [(confJsonTelnetUsername, .string S.telnetUsername),
    (confJsonTelnetPassword, .string S.telnetPassword),
    (confJsonTelnetCommand, .string S.telnetCommand)]

/-- **The value that stands for the settings.** -/
def Settings.value (S : Settings) : Json D :=
  .object [(confJsonFtp, S.ftp), (confJsonTelnet, S.telnet),
    (confJsonDeployTargets, textArray S.targets), (confJsonDeployFiles, textArray S.files)]

/-! ### What was built -/

/-- **An item was built for a value**, and has no name yet. -/
structure Built (A : Doubles D) (item : JsonItem D) (v : Json D) : Prop where
  value : item.value = some v
  integral : item.Integral A
  string : item.string = none

/-- The members of an object are the values of its chain. -/
theorem JsonItem.value_object_iff {item : JsonItem D} {members : List (CText × Json D)} :
    item.value = some (.object members) ↔
      item.type = .object ∧ chainMembers item.child = some members := by
  obtain ⟨_, type, valuestring, _, _, _, child⟩ := item
  cases type <;> simp [JsonItem.value]

/-- A member is put behind the others. -/
theorem chainMembers_append {chain : List (JsonItem D)} {members : List (CText × Json D)}
    {c : JsonItem D} {name : TextBlock} {v : Json D} (h : chainMembers chain = some members)
    (hname : c.string = some name) (hvalue : c.value = some v) :
    chainMembers (chain ++ [c]) = some (members ++ [(name.text, v)]) := by
  induction chain generalizing members with
  | nil =>
      rw [chainMembers] at h
      cases h
      simp [chainMembers, hname, hvalue]
  | cons d chain ih =>
      simp only [chainMembers, bind, Option.bind_eq_some_iff, Option.some.injEq] at h
      obtain ⟨name', hname', v', hvalue', rest, hrest, rfl⟩ := h
      simp [chainMembers, hname', hvalue', ih hrest]

theorem chainIntegral_append {A : Doubles D} {chain : List (JsonItem D)} {c : JsonItem D}
    (h : ChainIntegral A chain) (hc : c.Integral A) : ChainIntegral A (chain ++ [c]) := by
  induction chain with
  | nil => exact ⟨hc, trivial⟩
  | cons d chain ih => exact ⟨h.1, ih h.2⟩

theorem chainBlocks_append (chain chain' : List (JsonItem D)) :
    chainBlocks (chain ++ chain') = chainBlocks chain ++ chainBlocks chain' := by
  induction chain with
  | nil => rw [List.nil_append, chainBlocks_nil, List.nil_append]
  | cons c chain ih =>
      rw [List.cons_append, chainBlocks_cons, ih, chainBlocks_cons, List.append_assoc]

section Memory

variable {A : Doubles D} {mem : ℕ → Bool} (hmem : ∀ k, mem k = true) {heap : JsonHeap}
  {held : List ℕ}
include hmem

theorem cJsonNewItem_built (h : heap.Holds held) :
    ∃ addr heap', cJsonNewItem A mem heap = (some (.fresh A addr), heap') ∧
      heap'.Holds (addr :: held) := by
  rcases cJsonNewItem_spec A mem h with ⟨heap', -, -, hfail⟩ | ⟨addr, heap', hcall, hheld, -⟩
  · exact absurd hfail (not_mallocFailed hmem heap heap')
  · exact ⟨addr, heap', hcall, by simpa using hheld⟩

theorem cJsonStrdup_built (str : CText) (h : heap.Holds held) :
    ∃ addr heap', cJsonStrdup mem str heap = (some (.of addr str), heap') ∧
      heap'.Holds (addr :: held) := by
  rcases cJsonStrdup_spec mem str h with ⟨heap', -, -, hfail⟩ | ⟨addr, heap', hcall, hheld, -⟩
  · exact absurd hfail (not_mallocFailed hmem heap heap')
  · exact ⟨addr, heap', hcall, hheld⟩

/-- An empty object. -/
theorem cJsonCreate_built (h : heap.Holds held) :
    ∃ item heap', cJsonCreate A mem .object heap = (some item, heap') ∧
      Built A item (.object []) ∧ heap'.Holds (item.blocks ++ held) := by
  obtain ⟨addr, heap', hcall, hheld⟩ := cJsonNewItem_built (A := A) hmem h
  refine ⟨{ JsonItem.fresh A addr with type := .object }, heap', ?_, ⟨?_, ?_, rfl⟩, ?_⟩
  · rw [cJsonCreate, hcall]
    rfl
  · simp [JsonItem.fresh, JsonItem.value, chainMembers]
  · simp [JsonItem.fresh, JsonItem.Integral, ChainIntegral]
  · simpa [JsonItem.blocks_eq, JsonItem.fresh] using hheld

/-- **`cJSON_CreateString`** builds its text. -/
theorem cJsonCreateString_built {string : CText} (hzero : 0 ∉ string) (h : heap.Holds held) :
    ∃ item heap', cJsonCreateString A mem string heap = (some item, heap') ∧
      Built A item (.string string) ∧ heap'.Holds (item.blocks ++ held) := by
  obtain ⟨addr, heap₁, hnew, hheld₁⟩ := cJsonNewItem_built (A := A) hmem h
  obtain ⟨ptr, heap₂, hdup, hheld₂⟩ := cJsonStrdup_built hmem string hheld₁
  refine ⟨{ JsonItem.fresh A addr with
    type := .string, valuestring := some (.of ptr string) }, heap₂, ?_, ⟨?_, ?_, rfl⟩, ?_⟩
  · rw [cJsonCreateString, hnew]
    simp only [hdup]
  · simp [JsonItem.value, textOf_eq_self hzero]
  · simp [JsonItem.fresh, JsonItem.Integral, ChainIntegral]
  · simpa [JsonItem.blocks_eq, JsonItem.fresh] using hheld₂

/-- **The loop builds its texts.**  By induction on them. -/
theorem suffixStrings_built {strings : List CText} (hzero : ∀ text ∈ strings, 0 ∉ text)
    (h : heap.Holds held) :
    ∃ chain heap', suffixStrings A mem strings heap = .ok (chain, heap') ∧
      chainValues chain = some (strings.map .string) ∧ ChainIntegral A chain ∧
      heap'.Holds (chainBlocks chain ++ held) := by
  induction strings generalizing heap held with
  | nil => exact ⟨[], heap, rfl, by rw [chainValues]; rfl, trivial, by simpa using h⟩
  | cons string strings ih =>
      obtain ⟨n, heap₁, hcreate, hbuilt, hheld₁⟩ :=
        cJsonCreateString_built (A := A) hmem (hzero string List.mem_cons_self) h
      obtain ⟨next, heap₂, hrun, hvalues, hint, hheld⟩ :=
        ih (fun text htext => hzero text (List.mem_cons_of_mem _ htext)) hheld₁
      refine ⟨n :: next, heap₂, ?_, ?_, ⟨hbuilt.integral, hint⟩, hheld.perm ?_⟩
      · simp only [suffixStrings, hcreate, hrun, bind, Except.bind]
      · rw [chainValues, hbuilt.value, hvalues]
        rfl
      · rw [chainBlocks_cons, List.append_assoc]
        exact List.perm_append_comm_assoc _ _ _

/-- **`cJSON_CreateStringArray`** builds its texts. -/
theorem cJsonCreateStringArray_built {strings : List CText} (hzero : ∀ text ∈ strings, 0 ∉ text)
    (h : heap.Holds held) :
    ∃ item heap', cJsonCreateStringArray A mem strings heap = .ok (some item, heap') ∧
      Built A item (textArray strings) ∧ heap'.Holds (item.blocks ++ held) := by
  obtain ⟨addr, heap₁, hnew, hheld₁⟩ := cJsonNewItem_built (A := A) hmem h
  obtain ⟨chain, heap₂, hrun, hvalues, hint, hheld₂⟩ :=
    suffixStrings_built (A := A) hmem hzero hheld₁
  refine ⟨{ JsonItem.fresh A addr with type := .array, child := chain }, heap₂, ?_,
    ⟨?_, ?_, rfl⟩, ?_⟩
  · have hcreate : cJsonCreate A mem .array heap =
        (some { JsonItem.fresh A addr with type := .array }, heap₁) := by
      rw [cJsonCreate, hnew]
      rfl
    cases strings with
    | nil =>
        cases hrun
        simp only [cJsonCreateStringArray, hcreate]
        rfl
    | cons string strings =>
        obtain ⟨n, heap₃, hstring, -⟩ :=
          cJsonCreateString_built (A := A) hmem (hzero string List.mem_cons_self) hheld₁
        simp only [suffixStrings, hstring, bind, Except.bind] at hrun
        simp only [cJsonCreateStringArray, hcreate, hstring, bind, Except.bind]
        cases hnext : suffixStrings A mem strings heap₃ with
        | error e => simp [hnext] at hrun
        | ok r =>
            simp only [hnext, Except.ok.injEq, Prod.mk.injEq] at hrun
            obtain ⟨rfl, rfl⟩ := hrun
            rfl
  · rw [JsonItem.fresh, JsonItem.value]
    simp [hvalues, textArray]
  · simp [JsonItem.fresh, JsonItem.Integral, hint]
  · simpa [JsonItem.blocks_eq, JsonItem.fresh] using hheld₂

/-- **A member is added to an object.** -/
theorem cJsonAddItemToObject_built {object item : JsonItem D} {members : List (CText × Json D)}
    {v : Json D} {string : CText} (hzero : 0 ∉ string)
    (hobject : Built A object (.object members)) (hitem : Built A item v)
    (h : heap.Holds (item.blocks ++ (object.blocks ++ held))) :
    ∃ object' heap', cJsonAddItemToObject mem (some object) string (some item) heap =
        .ok (some object', heap') ∧ Built A object' (.object (members ++ [(string, v)])) ∧
      heap'.Holds (object'.blocks ++ held) := by
  obtain ⟨addr, heap', hdup, hheld⟩ := cJsonStrdup_built hmem string h
  obtain ⟨htype, hmembers⟩ := JsonItem.value_object_iff.1 hobject.value
  have hvalue : ({ item with string := some (.of addr string) } : JsonItem D).value = some v := by
    rw [← hitem.value]
    obtain ⟨_, type, _, _, _, _, _⟩ := item
    cases type <;> simp only [JsonItem.value]
  have hint : ({ item with string := some (.of addr string) } : JsonItem D).Integral A := by
    have hintegral := hitem.integral
    cases item
    exact hintegral
  refine ⟨{ object with child := object.child ++ [{ item with string := some (.of addr string) }] },
    heap', ?_, ⟨?_, ?_, hobject.string⟩, hheld.perm ?_⟩
  · simp only [cJsonAddItemToObject, hitem.string, freeText, hdup]
  · have happend := chainMembers_append hmembers rfl hvalue
    rw [TextBlock.text_of, textOf_eq_self hzero] at happend
    exact JsonItem.value_object_iff.2 ⟨htype, happend⟩
  · have hintegral := hobject.integral
    cases object
    exact ⟨hintegral.1, chainIntegral_append hintegral.2 hint⟩
  · rw [List.perm_iff_count]
    intro ptr
    simp only [JsonItem.blocks_eq, chainBlocks_append, chainBlocks_cons, chainBlocks_nil,
      hitem.string, textBlocks_some, textBlocks_none, List.count_append, List.count_cons,
      List.count_nil, TextBlock.addr_of]
    omega

/-- **A member that is a text.** -/
theorem cJsonAddStringToObject_built {object : JsonItem D} {members : List (CText × Json D)}
    {name string : CText} (hname : 0 ∉ name) (hzero : 0 ∉ string)
    (hobject : Built A object (.object members)) (h : heap.Holds (object.blocks ++ held)) :
    ∃ object' heap', cJsonAddStringToObject A mem (some object) name string heap =
        .ok (some object', heap') ∧
      Built A object' (.object (members ++ [(name, .string string)])) ∧
      heap'.Holds (object'.blocks ++ held) := by
  obtain ⟨item, heap₁, hcreate, hitem, hheld⟩ := cJsonCreateString_built (A := A) hmem hzero h
  obtain ⟨object', heap₂, hadd, hbuilt⟩ := cJsonAddItemToObject_built hmem hname hobject hitem hheld
  exact ⟨object', heap₂, by simp only [cJsonAddStringToObject, hcreate, hadd], hbuilt⟩

/-! ### What is generated -/

theorem generateFtp_built (S : Settings) (h : heap.Holds held) :
    ∃ item heap', generateFtp A mem S heap = .ok (some item, heap') ∧
      Built A item S.ftp ∧ heap'.Holds (item.blocks ++ held) := by
  obtain ⟨ftp, heap₁, hcreate, hftp, hheld⟩ := cJsonCreate_built (A := A) hmem h
  obtain ⟨ftp', heap₂, hname, hftp', hheld'⟩ :=
    cJsonAddStringToObject_built hmem (show 0 ∉ confJsonFtpUsername by decide)
      (S.nonzero S.ftpUsername (by simp)) hftp hheld
  obtain ⟨ftp'', heap₃, hpass, hbuilt⟩ :=
    cJsonAddStringToObject_built hmem (show 0 ∉ confJsonFtpPassword by decide)
      (S.nonzero S.ftpPassword (by simp)) hftp' hheld'
  exact ⟨ftp'', heap₃, by simp only [generateFtp, hcreate, hname, hpass, bind, Except.bind], hbuilt⟩

theorem generateTelnet_built (S : Settings) (h : heap.Holds held) :
    ∃ item heap', generateTelnet A mem S heap = .ok (some item, heap') ∧
      Built A item S.telnet ∧ heap'.Holds (item.blocks ++ held) := by
  obtain ⟨telnet, heap₁, hcreate, htelnet, hheld⟩ := cJsonCreate_built (A := A) hmem h
  obtain ⟨telnet₁, heap₂, hname, htelnet₁, hheld₁⟩ :=
    cJsonAddStringToObject_built hmem (show 0 ∉ confJsonTelnetUsername by decide)
      (S.nonzero S.telnetUsername (by simp)) htelnet hheld
  obtain ⟨telnet₂, heap₃, hpass, htelnet₂, hheld₂⟩ :=
    cJsonAddStringToObject_built hmem (show 0 ∉ confJsonTelnetPassword by decide)
      (S.nonzero S.telnetPassword (by simp)) htelnet₁ hheld₁
  obtain ⟨telnet₃, heap₄, hcommand, hbuilt⟩ :=
    cJsonAddStringToObject_built hmem (show 0 ∉ confJsonTelnetCommand by decide)
      (S.nonzero S.telnetCommand (by simp)) htelnet₂ hheld₂
  exact ⟨telnet₃, heap₄,
    by simp only [generateTelnet, hcreate, hname, hpass, hcommand, bind, Except.bind], hbuilt⟩

/-- **The tree of the generator stands for the settings.**  The sections and the lists are built
first, and then added one after the other. -/
theorem generateRoot_built (S : Settings) (h : heap.Holds held) :
    ∃ item heap', generateRoot A mem S heap = .ok (some item, heap') ∧
      Built A item S.value ∧ heap'.Holds (item.blocks ++ held) := by
  obtain ⟨ftp, heap₁, hrun₁, hftp, hheld₁⟩ := generateFtp_built (A := A) hmem S h
  obtain ⟨telnet, heap₂, hrun₂, htelnet, hheld₂⟩ := generateTelnet_built (A := A) hmem S hheld₁
  have hlists : ∀ text ∈ S.targets ++ S.files, 0 ∉ text := fun text htext =>
    S.nonzero text (List.mem_append_right _ htext)
  obtain ⟨targets, heap₃, hrun₃, htargets, hheld₃⟩ :=
    cJsonCreateStringArray_built (A := A) hmem
      (fun text htext => hlists text (List.mem_append_left _ htext)) hheld₂
  obtain ⟨files, heap₄, hrun₄, hfiles, hheld₄⟩ :=
    cJsonCreateStringArray_built (A := A) hmem
      (fun text htext => hlists text (List.mem_append_right _ htext)) hheld₃
  obtain ⟨root, heap₅, hrun₅, hroot, hheld₅⟩ := cJsonCreate_built (A := A) hmem hheld₄
  -- the root was created last, and `ftp` is the first to be added to it
  have hheld₆ : heap₅.Holds (ftp.blocks ++ (root.blocks ++
      (telnet.blocks ++ (targets.blocks ++ (files.blocks ++ held))))) := by
    refine hheld₅.perm (List.perm_iff_count.2 fun ptr => ?_)
    simp only [List.count_append]
    omega
  obtain ⟨root₁, heap₆, hrun₆, hroot₁, hheld₆⟩ := cJsonAddItemToObject_built hmem
    (show 0 ∉ confJsonFtp by decide) hroot hftp hheld₆
  obtain ⟨root₂, heap₇, hrun₇, hroot₂, hheld₇⟩ := cJsonAddItemToObject_built hmem
    (show 0 ∉ confJsonTelnet by decide) hroot₁ htelnet
      (hheld₆.perm (List.perm_append_comm_assoc _ _ _))
  obtain ⟨root₃, heap₈, hrun₈, hroot₃, hheld₈⟩ := cJsonAddItemToObject_built hmem
    (show 0 ∉ confJsonDeployTargets by decide) hroot₂ htargets
      (hheld₇.perm (List.perm_append_comm_assoc _ _ _))
  obtain ⟨root₄, heap₉, hrun₉, hbuilt⟩ := cJsonAddItemToObject_built hmem
    (show 0 ∉ confJsonDeployFiles by decide) hroot₃ hfiles
      (hheld₈.perm (List.perm_append_comm_assoc _ _ _))
  refine ⟨root₄, heap₉, ?_, hbuilt⟩
  simp only [generateRoot, hrun₁, hrun₂, hrun₃, hrun₄, hrun₅, hrun₆, hrun₇, hrun₈, hrun₉, bind,
    Except.bind]

/-- **The generator** writes a text of the grammar that stands for the settings, and frees every
block that it has asked for. -/
theorem generateConfig_spec (hexact : A.Exact) (S : Settings)
    (h : heap.Holds held) :
    ∃ text heap', generateConfig A mem S heap = .ok (text, heap') ∧ ValueText A S.value text ∧
      heap'.Holds held := by
  obtain ⟨root, heap₁, hbuild, hroot, hheld⟩ := generateRoot_built (A := A) hmem S h
  obtain ⟨out, heap₂, hprint, hheld', hprinted⟩ := print_spec A mem true root 0 hheld
  cases out with
  | none =>
      exact absurd (hprinted.none rfl) (not_mallocFailed hmem heap₁ heap₂)
  | some out =>
      have htext := valueText_text hexact true root 0 hroot.value hroot.integral
      rw [← hprinted.text out rfl] at htext
      -- the tree is deleted while the text is still held
      have hdelete : (cJsonDelete [root] heap₂).Holds (out.addr :: held) := by
        refine cJsonDelete_holds [root] (hheld'.perm ?_)
        rw [chainBlocks_cons, chainBlocks_nil, List.append_nil]
        exact List.perm_append_comm_assoc root.blocks [out.addr] held
      refine ⟨out.text, cJsonFree out.addr (cJsonDelete [root] heap₂), ?_, htext, hdelete.free⟩
      simp only [generateConfig, hbuild, cJsonPrint, hprint, bind, Except.bind]

end Memory

/-! ### What the deployer looks at -/

mutual

/-- **The tree as the deployer looks at it**: names, texts and children.  A text that is `NULL` is
one that is not there. -/
def JsonItem.cjson : JsonItem D → CJson
  | ⟨_, type, valuestring, _, _, _, child⟩ =>
      match type with
      | .null => .null
      | .false => .false
      | .true => .true
      | .number => .number
      | .string =>
          match valuestring with
          | none => .null
          | some block => .string block.text
      | .array => .array (chainCjson child)
      | .object => .object (chainCjson child)

def chainCjson : List (JsonItem D) → List (Option CText × CJson)
  | [] => []
  | c :: next => (c.string.map TextBlock.text, c.cjson) :: chainCjson next

end

mutual

/-- The value as the deployer looks at it. -/
def Json.cjson : Json D → CJson
  | .null => .null
  | .bool false => .false
  | .bool true => .true
  | .number _ => .number
  | .string text => .string text
  | .array elements => .array (elementsCjson elements)
  | .object members => .object (membersCjson members)

def elementsCjson : List (Json D) → List (Option CText × CJson)
  | [] => []
  | v :: vs => (none, v.cjson) :: elementsCjson vs

def membersCjson : List (CText × Json D) → List (Option CText × CJson)
  | [] => []
  | (name, v) :: members => (some name, v.cjson) :: membersCjson members

end

mutual

/-- **What the deployer looks at is the value.**  By the structure of the item. -/
theorem JsonItem.cjson_eq : ∀ (item : JsonItem D) {v : Json D}, item.value = some v → item.Bare →
    item.cjson = v.cjson
  | ⟨_, type, valuestring, _, _, _, child⟩, v, hvalue, hbare => by
      rw [JsonItem.Bare] at hbare
      cases type with
      | null | false | true | number =>
          simp only [JsonItem.value, Option.some.injEq] at hvalue
          rw [JsonItem.cjson, ← hvalue, Json.cjson]
      | string =>
          simp only [JsonItem.value, Option.map_eq_some_iff] at hvalue
          obtain ⟨block, rfl, rfl⟩ := hvalue
          rw [JsonItem.cjson, Json.cjson]
      | array =>
          simp only [JsonItem.value, Option.map_eq_some_iff] at hvalue
          obtain ⟨vs, hvalues, rfl⟩ := hvalue
          rw [JsonItem.cjson, Json.cjson, chainCjson_elements child hvalues (hbare.1 rfl) hbare.2]
      | object =>
          simp only [JsonItem.value, Option.map_eq_some_iff] at hvalue
          obtain ⟨members, hmembers, rfl⟩ := hvalue
          rw [JsonItem.cjson, Json.cjson, chainCjson_members child hmembers hbare.2]

theorem chainCjson_elements : ∀ (chain : List (JsonItem D)) {vs : List (Json D)},
    chainValues chain = some vs → (∀ c ∈ chain, c.string = none) → ChainBare chain →
    chainCjson chain = elementsCjson vs
  | [], vs, hvalues, _, _ => by
      rw [chainValues, Option.some.injEq] at hvalues
      rw [chainCjson, ← hvalues, elementsCjson]
  | c :: next, vs, hvalues, hnames, hbare => by
      rw [ChainBare] at hbare
      simp only [chainValues, bind, Option.bind_eq_some_iff, Option.some.injEq] at hvalues
      obtain ⟨v, hv, rest, hrest, rfl⟩ := hvalues
      have hnext := chainCjson_elements next hrest
        (fun d hd => hnames d (List.mem_cons_of_mem _ hd)) hbare.2
      rw [chainCjson, elementsCjson, c.cjson_eq hv hbare.1, hnext, hnames c List.mem_cons_self]
      rfl

theorem chainCjson_members : ∀ (chain : List (JsonItem D)) {members : List (CText × Json D)},
    chainMembers chain = some members → ChainBare chain → chainCjson chain = membersCjson members
  | [], members, hmembers, _ => by
      rw [chainMembers, Option.some.injEq] at hmembers
      rw [chainCjson, ← hmembers, membersCjson]
  | c :: next, members, hmembers, hbare => by
      rw [ChainBare] at hbare
      simp only [chainMembers, bind, Option.bind_eq_some_iff, Option.some.injEq] at hmembers
      obtain ⟨name, hname, v, hv, rest, hrest, rfl⟩ := hmembers
      rw [chainCjson, membersCjson, c.cjson_eq hv hbare.1, chainCjson_members next hrest hbare.2,
        hname]
      rfl

end

/-- The items of a list of texts. -/
def textItems (texts : List CText) : List (Option CText × CJson) :=
  texts.map fun text => (none, .string text)

theorem cjson_textArray (texts : List CText) :
    (textArray texts : Json D).cjson = .array (textItems texts) := by
  have helements : ∀ texts : List CText,
      elementsCjson (texts.map (Json.string : CText → Json D)) = textItems texts := by
    intro texts
    induction texts with
    | nil => rw [List.map_nil, elementsCjson]; rfl
    | cons text texts ih => rw [List.map_cons, elementsCjson, ih, Json.cjson]; rfl
  rw [textArray, Json.cjson, helements]

/-- The section `ftp` as the deployer looks at it. -/
def Settings.ftpTree (S : Settings) : CJson :=
  .object [(some confJsonFtpUsername, .string S.ftpUsername),
    (some confJsonFtpPassword, .string S.ftpPassword)]

/-- The section `telnet` as the deployer looks at it. -/
def Settings.telnetTree (S : Settings) : CJson :=
  .object [(some confJsonTelnetUsername, .string S.telnetUsername),
    (some confJsonTelnetPassword, .string S.telnetPassword),
    (some confJsonTelnetCommand, .string S.telnetCommand)]

/-- **The settings as the deployer looks at them.** -/
def Settings.tree (S : Settings) : CJson :=
  .object [(some confJsonFtp, S.ftpTree), (some confJsonTelnet, S.telnetTree),
    (some confJsonDeployTargets, .array (textItems S.targets)),
    (some confJsonDeployFiles, .array (textItems S.files))]

theorem Settings.cjson_value (S : Settings) : (S.value : Json D).cjson = S.tree := by
  simp [Settings.value, Settings.ftp, Settings.telnet, Json.cjson, membersCjson, cjson_textArray,
    Settings.tree, Settings.ftpTree, Settings.telnetTree]

/-! ### What the deployer makes of the settings -/

/-- **The calls of the deployer succeed** on the settings, and the command file holds nothing that
is lost. -/
structure Settings.CallsSucceed (S : Settings) (env : ConfigEnv) (file : List UInt8) : Prop where
  ftp : env.ftp.username = true ∧ env.ftp.pass = true
  telnet : env.telnet.username = true ∧ env.telnet.pass = true
  commandFile : env.commandFile = some file
  short : ShortLines file
  reads : ReadsAll env.commands .empty file
  targets : env.mallocTargets = true ∧ ∀ i < S.targets.length, env.target i = true
  files : env.mallocFiles = true ∧ ∀ i < S.files.length, (env.openFile i).isSome

/-- **The configuration is the one that was set**: its texts, one command for each line of the
command file, its targets, and a descriptor for each of its files. -/
structure Settings.LoadedAs (S : Settings) (env : ConfigEnv) (file : List UInt8) (c : Config) :
    Prop where
  ftp : c.ftpUsername = some S.ftpUsername ∧ c.ftpPassword = some S.ftpPassword
  telnet : c.telnetUsername = some S.telnetUsername ∧ c.telnetPassword = some S.telnetPassword
  commands : ∃ l cells, c.telnetCommandList = some l ∧ l.Represents c.mem cells ∧
    cells.map Prod.snd = (lines newline file).map fun line => some (commandOf line)
  targets : c.deployTargetCount = S.targets.length ∧
    c.deployTargetList = some (S.targets.map some)
  files : c.deployFileCount = S.files.length ∧
    c.deployFileList = some ((List.range S.files.length).map env.openFile)

/-- A command file from which nothing is lost. -/
theorem readCommands_all {env : CommandAllocs} {file : List UInt8} (hshort : ShortLines file)
    (hreads : ReadsAll env .empty file) (buffer : List.Vector UInt8 commandBufferSize) :
    ∃ v l cells, readCommands env file (readerStart buffer .empty) = .ok v ∧ v.list = some l ∧
      l.Represents v.mem cells ∧
      cells.map Prod.snd = (lines newline file).map fun line => some (commandOf line) := by
  obtain ⟨heof, hended, halloc⟩ := hreads
  obtain ⟨v, l, new, hrun, hlist, hrep, -, hiff⟩ :=
    readCommands_lines env file (v := readerStart buffer .empty) rfl (represents_create _ true)
      ⟨rfl, List.take_zero⟩ List.not_mem_nil hshort
  -- every line is closed, so that the loop has put all of them into the list
  have hsame : closed newline eofByte [] file = lines newline file :=
    (closed_eq_iff (by decide) List.not_mem_nil file).2 ⟨heof, hended⟩
  rw [hsame] at hiff
  exact ⟨v, l, new, hrun, hlist, hrep, hiff.2 halloc⟩

theorem getArrayItem_textItems {texts : List CText} {i : ℕ} (hi : i < texts.length) :
    getArrayItem (.array (textItems texts)) i = some (.string texts[i]) := by
  simp [getArrayItem, CJson.child, textItems, hi]

/-- **The loop over the targets** copies every text. -/
theorem targetLoop_textItems {env : ConfigEnv} {texts : List CText}
    (htarget : ∀ i < texts.length, env.target i = true) (left : ℕ) {i : ℕ}
    (hi : i + left = texts.length) :
    targetLoop env (.array (textItems texts)) left i
        ((texts.take i).map some ++ List.replicate left none) = .ok (texts.map some) := by
  induction left generalizing i with
  | zero =>
      rw [Nat.add_zero] at hi
      simp [targetLoop, hi]
  | succ left ih =>
      have hlt : i < texts.length := by omega
      have hset : ((texts.take i).map some ++ List.replicate (left + 1) none).set i
          (some texts[i]) = (texts.take (i + 1)).map some ++ List.replicate left none := by
        rw [List.replicate_succ, List.take_succ_eq_append_getElem hlt,
          List.set_append_right _ _ (by simp), List.length_map, List.length_take,
          Nat.min_eq_left hlt.le, Nat.sub_self, List.set_cons_zero, List.map_append,
          List.append_assoc]
        rfl
      rw [targetLoop, getArrayItem_textItems hlt]
      simp only [CJson.valuestring, strdup, htarget i hlt, if_true, bind, Except.bind, hset]
      exact ih (by omega)

/-- **The loop over the files** opens every file. -/
theorem fileLoop_textItems {env : ConfigEnv} {texts : List CText}
    (hopen : ∀ i < texts.length, (env.openFile i).isSome) (left : ℕ) {i : ℕ}
    (hi : i + left = texts.length) :
    fileLoop env (.array (textItems texts)) left i
        ((List.range i).map env.openFile ++ List.replicate left none) =
      .ok (.ok, (List.range texts.length).map env.openFile) := by
  induction left generalizing i with
  | zero =>
      rw [Nat.add_zero] at hi
      simp [fileLoop, hi]
  | succ left ih =>
      have hlt : i < texts.length := by omega
      obtain ⟨fd, hfd⟩ := Option.isSome_iff_exists.1 (hopen i hlt)
      have hset : ((List.range i).map env.openFile ++ List.replicate (left + 1) none).set i
          (some fd) = (List.range (i + 1)).map env.openFile ++ List.replicate left none := by
        rw [List.replicate_succ, List.range_succ, List.set_append_right _ _ (by simp),
          List.length_map, List.length_range, Nat.sub_self]
        simp [hfd]
      rw [fileLoop, getArrayItem_textItems hlt]
      simp only [CJson.valuestring, hfd, hset]
      exact ih (by omega)

/-- A user name and a password that are there and are copied. -/
theorem parseLogin_texts (debugBuild : Bool) {env : LoginAllocs} {part : CJson}
    {keyUsername keyPass name pass : CText} (henv : env.username = true ∧ env.pass = true)
    (hname : getObjectItem part keyUsername = some (.string name))
    (hpass : getObjectItem part keyPass = some (.string pass)) :
    parseLogin debugBuild env part keyUsername keyPass = .ok (some (some name, some pass)) := by
  simp [parseLogin, hname, CJson.valuestring, strdup, henv.1, henv.2, parsePassword, hpass,
    debugValuestring, bind, Except.bind]

section Sections

variable {env : ConfigEnv} {S : Settings} {file : List UInt8}
  (henv : S.CallsSucceed env file) (s : Config)
include henv

theorem deployerParseFtp_settings : deployerParseFtp env S.tree s = .ok (.ok, { s with
    ftpUsername := some S.ftpUsername, ftpPassword := some S.ftpPassword }) := by
  have hitem : getObjectItem S.tree confJsonFtp = some S.ftpTree := rfl
  have hlogin : parseLogin env.debugBuild env.ftp S.ftpTree confJsonFtpUsername
      confJsonFtpPassword = .ok (some (some S.ftpUsername, some S.ftpPassword)) :=
    parseLogin_texts env.debugBuild henv.ftp rfl rfl
  rw [deployerParseFtp, hitem]
  simp only [hlogin, bind, Except.bind]

theorem deployerParseTelnet_settings (hmem : s.mem = .empty)
    (hlist : s.telnetCommandList = some (dlistCreate true)) {v : CommandReader}
    (hread : readCommands env.commands file (readerStart env.buffer .empty) = .ok v) :
    deployerParseTelnet env S.tree s = .ok (.ok, { s with
      telnetUsername := some S.telnetUsername, telnetPassword := some S.telnetPassword,
      telnetCommandList := v.list, mem := v.mem }) := by
  have hitem : getObjectItem S.tree confJsonTelnet = some S.telnetTree := rfl
  have hlogin : parseLogin env.debugBuild env.telnet S.telnetTree confJsonTelnetUsername
      confJsonTelnetPassword = .ok (some (some S.telnetUsername, some S.telnetPassword)) :=
    parseLogin_texts env.debugBuild henv.telnet rfl rfl
  have hcommand : getObjectItem S.telnetTree confJsonTelnetCommand =
      some (.string S.telnetCommand) := rfl
  rw [readerStart] at hread
  rw [deployerParseTelnet, hitem]
  simp only [hlogin, bind, Except.bind, hcommand, parseCommandFile, CJson.valuestring,
    henv.commandFile, hmem, hlist, hread]

theorem deployerParseDeployTargets_settings :
    deployerParseDeployTargets env S.tree s = .ok (.ok, { s with
      deployTargetCount := S.targets.length, deployTargetList := some (S.targets.map some) }) := by
  have hitem : getObjectItem S.tree confJsonDeployTargets =
      some (.array (textItems S.targets)) := rfl
  have hsize : getArraySize (.array (textItems S.targets)) = S.targets.length := List.length_map _
  have hne : S.targets.length ≠ 0 := fun h => S.targets_ne (List.length_eq_zero_iff.1 h)
  have hloop := targetLoop_textItems henv.targets.2 S.targets.length (Nat.zero_add _)
  simp only [List.take_zero, List.map_nil, List.nil_append] at hloop
  rw [deployerParseDeployTargets, hitem]
  simp only [hsize, hne, if_false, henv.targets.1, Bool.true_eq_false, hloop, bind, Except.bind]

theorem deployerParseDeployFiles_settings :
    deployerParseDeployFiles env S.tree s = .ok (.ok, { s with
      deployFileCount := S.files.length,
      deployFileList := some ((List.range S.files.length).map env.openFile) }) := by
  have hitem : getObjectItem S.tree confJsonDeployFiles = some (.array (textItems S.files)) := rfl
  have hsize : getArraySize (.array (textItems S.files)) = S.files.length := List.length_map _
  have hne : S.files.length ≠ 0 := fun h => S.files_ne (List.length_eq_zero_iff.1 h)
  have hloop := fileLoop_textItems henv.files.2 S.files.length (Nat.zero_add _)
  simp only [List.range_zero, List.map_nil, List.nil_append] at hloop
  rw [deployerParseDeployFiles, hitem]
  simp only [hsize, hne, if_false, henv.files.1, Bool.true_eq_false, hloop, bind, Except.bind]

end Sections

/-- **What `deployer_parse_config_file` makes of the settings**, if its calls succeed. -/
theorem deployerParseConfigFile_settings {env : ConfigEnv} {S : Settings} {file : List UInt8}
    (henv : S.CallsSucceed env file) (count : ℕ) :
    ∃ c, deployerParseConfigFile env S.tree (configStart count) = .ok (.ok, some c) ∧
      S.LoadedAs env file c := by
  obtain ⟨v, l, cells, hread, hlist, hrep, hcells⟩ :=
    readCommands_all henv.short henv.reads env.buffer
  refine ⟨{ configStart count with
    ftpUsername := some S.ftpUsername, ftpPassword := some S.ftpPassword,
    telnetUsername := some S.telnetUsername, telnetPassword := some S.telnetPassword,
    telnetCommandList := v.list, mem := v.mem,
    deployTargetCount := S.targets.length, deployTargetList := some (S.targets.map some),
    deployFileCount := S.files.length,
    deployFileList := some ((List.range S.files.length).map env.openFile) }, ?_,
    ⟨rfl, rfl⟩, ⟨rfl, rfl⟩, ⟨l, cells, hlist, hrep, hcells⟩, ⟨rfl, rfl⟩, ⟨rfl, rfl⟩⟩
  have htelnet := deployerParseTelnet_settings henv { configStart count with
    ftpUsername := some S.ftpUsername, ftpPassword := some S.ftpPassword } rfl rfl hread
  simp only [deployerParseConfigFile, parseSection, deployerParseFtp_settings henv, htelnet,
    deployerParseDeployTargets_settings henv, deployerParseDeployFiles_settings henv, bind,
    Except.bind, ne_eq, not_true_eq_false, if_false]

/-- **The settings in the source of the generator.** -/
def generatorSettings : Settings where
  ftpUsername := literal "plg"
  ftpPassword := literal "plg"
  telnetUsername := literal "root"
  telnetPassword := literal ""
  telnetCommand := literal "db/telnet/command"
  targets := ["172.16.1.30", "172.16.1.31", "172.16.1.32", "172.16.1.33", "172.16.1.34",
    "172.16.1.35", "172.16.1.36", "172.16.1.37", "172.16.1.38", "172.16.1.39", "172.16.1.40",
    "172.16.1.41", "172.16.1.42", "172.16.1.43", "172.16.1.44"].map literal
  files := ["db/ftp/deployer_ftp.txt", "db/ftp/rcS"].map literal
  nonzero := by decide +kernel
  targets_ne := by decide
  files_ne := by decide

/-- Calls that all succeed, and a command file of one command. -/
def oneCommandEnv : ConfigEnv := { configCallsSucceed with
  commandFile := some (literal "reboot\n") }

theorem generatorSettings_callsSucceed :
    generatorSettings.CallsSucceed oneCommandEnv (literal "reboot\n") where
  ftp := ⟨rfl, rfl⟩
  telnet := ⟨rfl, rfl⟩
  commandFile := rfl
  short := by decide
  reads := by
    refine ⟨by decide, Or.inr (by decide), ?_⟩
    have hlines : (lines newline (literal "reboot\n")).length = 1 := by decide
    rw [hlines]
    exact ⟨rfl, ⟨0, nodePlaces_pos⟩, rfl, fun h => h rfl, trivial⟩
  targets := ⟨rfl, fun _ _ => rfl⟩
  files := ⟨rfl, fun _ _ => rfl⟩

end Wsn
