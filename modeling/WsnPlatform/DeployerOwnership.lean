/-
**Who frees the deployer.**

`deployer_destroy` frees a deployer and what its fields lead to.  A caller that has created a
deployer has `deployer_init` read a configuration file into it, and destroys it in the end.  But
where a section of the file is refused, the parser destroys the deployer itself, at its label
`fail`.

What `deployer_destroy` frees is right for whatever the parser leaves in the fields: that is stated
for the fields at every end of the parser.  It is who calls it that goes wrong.

Main definitions:

* `DeployerFields`, `DeployerPtr` — the deployer, and a pointer to it;
* `deployerDestroy`, `deployerInit` — the functions of the source;
* `DeployerFields.Owns`, `FreesAll` — what a deployer owns, and that it is freed exactly once;
* `Config.Sound` — the lists of a configuration are as long as their counts;
* `parseFields` — the fields as the parser leaves them, also where it fails.

Main results:

* `deployerDestroy_frees` — a sound deployer is freed with all that it owns, each thing once;
* `parseFields_sound`, `parseFields_frees` — the parser leaves sound fields wherever it ends, so
  that destroying the deployer is right at the label `fail` as much as behind a success;
* `keepsOwnership_iff` — a failed initialisation leaves the deployer to its caller exactly if it
  does not come from a flaw that the parser refuses.
-/

import WsnPlatform.ConfigJson

set_option relaxedAutoImplicit false
set_option autoImplicit false

namespace Wsn

/-! ### The deployer -/

/-- **The deployer**, with its configuration.  A pointer to one of its parts is not `NULL` if it is
`true`. -/
structure DeployerFields where
  eventCbCtx : Bool
  ftpUploader : Bool
  telnetCommander : Bool
  config : Config

/-- A pointer to a deployer. -/
inductive DeployerPtr
  | null
  /-- The deployer was freed. -/
  | freed
  | live (thiz : DeployerFields)

/-- **What a deployer owns**: itself, and what is to be freed or closed through its fields.  The
nodes of the command list are in the memory of the list. -/
inductive DeployerBlock
  | deployer
  | eventCbCtx
  | ftpUploader
  | telnetCommander
  | ftpUsername
  | ftpPassword
  | telnetUsername
  | telnetPassword
  | telnetCommandList
  | deployTargetList
  /-- The string of the `i`th target. -/
  | target (i : ℕ)
  | deployFileList
  /-- The descriptor of the `i`th file. -/
  | file (i : ℕ)

/-- What `deployer_destroy` frees and closes, in order. -/
structure Freed where
  blocks : List DeployerBlock
  /-- The memory of the list behind `dlist_destroy`; `none` where it is not called. -/
  mem : Option (Mem (Option CText))

/-- `SAFE_FREE`. -/
def safeFree (block : DeployerBlock) (isSet : Bool) : List DeployerBlock :=
  if isSet then [block] else []

/-- The loop over the entries of a list: how many are left, and the index.  An entry that is `NULL`
or `-1` is passed over. -/
def releaseEntries {γ : Type} (entry : ℕ → DeployerBlock) (list : List (Option γ)) :
    ℕ → ℕ → Exec (List DeployerBlock)
  | 0, _ => .ok []
  | left + 1, i =>
      match list[i]? with
      | none => .error .outOfBounds
      | some item => do
          let rest ← releaseEntries entry list left (i + 1)
          .ok (safeFree (entry i) item.isSome ++ rest)

/-- A list of `count` entries, and then the list itself. -/
def releaseList {γ : Type} (block : DeployerBlock) (entry : ℕ → DeployerBlock) (count : ℕ)
    (list : Option (List (Option γ))) : Exec (List DeployerBlock) :=
  match list with
  | none => .ok []
  | some list => do
      let entries ← releaseEntries entry list count 0
      .ok (entries ++ [block])

/-- The command list is destroyed, with its nodes and their commands. -/
def releaseCommands (c : Config) : Exec (Option (Mem (Option CText))) :=
  match c.telnetCommandList with
  | none => .ok none
  | some list => do
      let mem ← dlistDestroy c.mem (some list)
      .ok (some mem)

/-- **`deployer_destroy`**. -/
def deployerDestroy : DeployerPtr → Exec Freed
  | .null => .ok ⟨[], none⟩
  | .freed => .error .dangling
  | .live thiz => do
      let c := thiz.config
      let mem ← releaseCommands c
      let targets ← releaseList .deployTargetList .target c.deployTargetCount c.deployTargetList
      let files ← releaseList .deployFileList .file c.deployFileCount c.deployFileList
      -- `ftp_uploader` is `NULL` by the time at which it is to be destroyed
      .ok
        { blocks := safeFree .eventCbCtx thiz.eventCbCtx ++
            safeFree .ftpUploader thiz.ftpUploader ++
            safeFree .ftpUsername c.ftpUsername.isSome ++
            safeFree .ftpPassword c.ftpPassword.isSome ++
            safeFree .telnetUsername c.telnetUsername.isSome ++
            safeFree .telnetPassword c.telnetPassword.isSome ++
            safeFree .telnetCommandList c.telnetCommandList.isSome ++ targets ++ files ++
            safeFree .telnetCommander thiz.telnetCommander ++ [.deployer]
          mem := mem }

/-- What the configuration file turns out to be. -/
inductive ConfFile
  /-- `fopen` fails. -/
  | unreadable
  /-- `malloc` of the buffer fails. -/
  | noBuffer
  /-- `cJSON_Parse` finds no value. -/
  | notJson
  | tree (root : CJson)

/-- The deployer behind the parser. -/
def DeployerFields.parsed (thiz : DeployerFields) (config : Option Config) : DeployerPtr :=
  match config with
  | none => .freed
  | some config => .live { thiz with config := config }

/-- **`deployer_init`**, and the pointer that the caller holds behind it.  Either argument may be
`NULL`. -/
def deployerInit (env : ConfigEnv) (thiz : Option DeployerFields) (confFile : Option ConfFile) :
    Except ConfigHalt (Ret × DeployerPtr) :=
  match thiz with
  | none => .ok (.invalidParams, .null)
  | some thiz =>
      match confFile with
      | none => .ok (.invalidParams, .live thiz)
      | some .unreadable => .ok (.fail, .live thiz)
      | some .noBuffer => .error .nullArgument
      | some .notJson => .ok (.fail, .live thiz)
      | some (.tree root) => do
          let r ← deployerParseConfigFile env root thiz.config
          .ok (r.1, thiz.parsed r.2)

/-- The deployer as `deployer_create` leaves it. -/
def deployerCreated (deployTargetCount : ℕ) : DeployerFields :=
  ⟨true, true, true, configStart deployTargetCount⟩

/-! ### What is to be freed -/

/-- The `i`th entry of a list is there. -/
def HasEntry {γ : Type} (list : Option (List (Option γ))) (i : ℕ) : Prop :=
  ∃ entries item, list = some entries ∧ entries[i]? = some (some item)

/-- **The deployer owns it.** -/
def DeployerFields.Owns (thiz : DeployerFields) : DeployerBlock → Prop
  | .deployer => True
  | .eventCbCtx => thiz.eventCbCtx = true
  | .ftpUploader => thiz.ftpUploader = true
  | .telnetCommander => thiz.telnetCommander = true
  | .ftpUsername => thiz.config.ftpUsername.isSome = true
  | .ftpPassword => thiz.config.ftpPassword.isSome = true
  | .telnetUsername => thiz.config.telnetUsername.isSome = true
  | .telnetPassword => thiz.config.telnetPassword.isSome = true
  | .telnetCommandList => thiz.config.telnetCommandList.isSome = true
  | .deployTargetList => thiz.config.deployTargetList.isSome = true
  | .target i => HasEntry thiz.config.deployTargetList i
  | .deployFileList => thiz.config.deployFileList.isSome = true
  | .file i => HasEntry thiz.config.deployFileList i

/-- **The nodes of a command list are freed**, and each command is handed to
`destroy_telnet_command_list` once. -/
def NodesFreed (m : Mem (Option CText)) (list : DList) (freed : Option (Mem (Option CText))) :
    Prop :=
  ∃ cells m', list.Represents m cells ∧ freed = some m' ∧
    m'.destroyed = m.destroyed ++ cells.map Prod.snd ∧ ∀ a ∈ cells.map Prod.fst, m'.nodes a = none

/-- **Everything that the deployer owns is freed**, and nothing twice. -/
structure FreesAll (thiz : DeployerFields) (freed : Freed) : Prop where
  once : freed.blocks.Nodup
  all : ∀ block, block ∈ freed.blocks ↔ thiz.Owns block
  nodes : ∀ list, thiz.config.telnetCommandList = some list →
    NodesFreed thiz.config.mem list freed.mem

/-- **A failed initialisation leaves ownership with the caller**: the deployer is alive, and
destroying it frees everything that it owns. -/
def KeepsOwnership (env : ConfigEnv) (thiz : DeployerFields) (confFile : Option ConfFile) : Prop :=
  ∀ ret ptr, deployerInit env (some thiz) confFile = .ok (ret, ptr) → ret ≠ .ok →
    ∃ s freed, ptr = .live s ∧ deployerDestroy ptr = .ok freed ∧ FreesAll s freed

/-! ### Destroying -/

/-- The command list is a list, and destroys its commands. -/
def CommandsSound (m : Mem (Option CText)) (list : Option DList) : Prop :=
  ∀ l, list = some l → l.dataDestroy = true ∧ ∃ cells, l.Represents m cells

/-- **A configuration whose lists are as long as their counts**, and whose command list is one. -/
structure Config.Sound (c : Config) : Prop where
  commands : CommandsSound c.mem c.telnetCommandList
  targets : ∀ list, c.deployTargetList = some list → list.length = c.deployTargetCount
  files : ∀ list, c.deployFileList = some list → list.length = c.deployFileCount

theorem mem_safeFree {block b : DeployerBlock} {isSet : Bool} :
    block ∈ safeFree b isSet ↔ isSet = true ∧ block = b := by
  cases isSet <;> simp [safeFree]

theorem nodup_safeFree (b : DeployerBlock) (isSet : Bool) : (safeFree b isSet).Nodup := by
  cases isSet <;> simp [safeFree]

section Release

variable {γ : Type} {entry : ℕ → DeployerBlock}

/-- **The loop over the entries** releases those that are there, each once. -/
theorem releaseEntries_spec (hentry : Function.Injective entry) (list : List (Option γ))
    {left i : ℕ} (hi : i + left = list.length) :
    ∃ blocks, releaseEntries entry list left i = .ok blocks ∧ blocks.Nodup ∧
      ∀ block, block ∈ blocks ↔
        ∃ k item, i ≤ k ∧ list[k]? = some (some item) ∧ block = entry k := by
  induction left generalizing i with
  | zero =>
      refine ⟨[], rfl, List.nodup_nil, fun block => iff_of_false List.not_mem_nil ?_⟩
      rintro ⟨k, item, hk, hget, -⟩
      obtain ⟨hlt, -⟩ := List.getElem?_eq_some_iff.1 hget
      omega
  | succ left ih =>
      obtain ⟨rest, hrun, hnodup, hmem⟩ := ih (show i + 1 + left = list.length by omega)
      have hlt : i < list.length := by omega
      obtain ⟨item, hitem⟩ : ∃ item, list[i]? = some item := ⟨_, List.getElem?_eq_getElem hlt⟩
      refine ⟨safeFree (entry i) item.isSome ++ rest, ?_, ?_, fun block => ?_⟩
      · rw [releaseEntries, hitem]
        dsimp only
        rw [hrun, ok_bind]
      · refine (nodup_safeFree _ _).append hnodup fun block hfirst hrest => ?_
        obtain ⟨-, rfl⟩ := mem_safeFree.1 hfirst
        obtain ⟨k, -, hk, -, heq⟩ := (hmem _).1 hrest
        have hik := hentry heq
        omega
      · rw [List.mem_append, mem_safeFree, hmem]
        constructor
        · rintro (⟨hsome, rfl⟩ | ⟨k, item', hk, hget, rfl⟩)
          · obtain ⟨x, rfl⟩ := Option.isSome_iff_exists.1 hsome
            exact ⟨i, x, le_rfl, hitem, rfl⟩
          · exact ⟨k, item', Nat.le_of_succ_le hk, hget, rfl⟩
        · rintro ⟨k, item', hk, hget, rfl⟩
          rcases Nat.lt_or_eq_of_le hk with hlt | rfl
          · exact Or.inr ⟨k, item', hlt, hget, rfl⟩
          · rw [hitem] at hget
            cases hget
            exact Or.inl ⟨rfl, rfl⟩

/-- **A list is released** with its entries, each once. -/
theorem releaseList_spec (hentry : Function.Injective entry) {block : DeployerBlock}
    (hblock : ∀ i, entry i ≠ block) {count : ℕ} {list : Option (List (Option γ))}
    (hcount : ∀ entries, list = some entries → entries.length = count) :
    ∃ blocks, releaseList block entry count list = .ok blocks ∧ blocks.Nodup ∧
      ∀ b, b ∈ blocks ↔ (list.isSome = true ∧ b = block) ∨ ∃ i, HasEntry list i ∧ b = entry i := by
  cases list with
  | none =>
      refine ⟨[], rfl, List.nodup_nil, fun b => iff_of_false List.not_mem_nil ?_⟩
      rintro (⟨hsome, -⟩ | ⟨i, ⟨entries, item, hentries, -⟩, -⟩)
      · cases hsome
      · cases hentries
  | some list =>
      have hlen : 0 + count = list.length := by rw [hcount list rfl, Nat.zero_add]
      obtain ⟨blocks, hrun, hnodup, hmem⟩ := releaseEntries_spec hentry list hlen
      refine ⟨blocks ++ [block], ?_, ?_, fun b => ?_⟩
      · rw [releaseList, hrun, ok_bind]
      · refine hnodup.append (List.nodup_singleton block) fun b hb hlast => ?_
        obtain ⟨k, -, -, -, rfl⟩ := (hmem b).1 hb
        exact hblock k (List.mem_singleton.1 hlast)
      · rw [List.mem_append, List.mem_singleton, hmem]
        constructor
        · rintro (⟨k, item, -, hget, rfl⟩ | rfl)
          · exact Or.inr ⟨k, ⟨list, item, rfl, hget⟩, rfl⟩
          · exact Or.inl ⟨rfl, rfl⟩
        · rintro (⟨-, rfl⟩ | ⟨k, ⟨entries, item, hentries, hget⟩, rfl⟩)
          · exact Or.inr rfl
          · cases hentries
            exact Or.inl ⟨k, item, Nat.zero_le k, hget, rfl⟩

end Release

/-- **The command list is destroyed** with its nodes. -/
theorem releaseCommands_spec {c : Config} (hc : c.Sound) :
    ∃ mem, releaseCommands c = .ok mem ∧
      ∀ list, c.telnetCommandList = some list → NodesFreed c.mem list mem := by
  rw [releaseCommands]
  cases hlist : c.telnetCommandList with
  | none => exact ⟨none, rfl, fun list hlist' => by cases hlist'⟩
  | some list =>
      obtain ⟨hdata, cells, hrep⟩ := hc.commands list hlist
      obtain ⟨m', hrun, hdestroyed, hfree, -⟩ := dlistDestroy_spec hrep
      rw [if_pos hdata] at hdestroyed
      refine ⟨some m', by dsimp only; rw [hrun, ok_bind], fun list' hlist' => ?_⟩
      cases hlist'
      exact ⟨cells, m', hrep, rfl, hdestroyed, hfree⟩

/-- The place of a block in the order in which `deployer_destroy` frees; a list has one place with
its entries. -/
def DeployerBlock.order : DeployerBlock → ℕ
  | .eventCbCtx => 0
  | .ftpUploader => 1
  | .ftpUsername => 2
  | .ftpPassword => 3
  | .telnetUsername => 4
  | .telnetPassword => 5
  | .telnetCommandList => 6
  | .deployTargetList => 7
  | .target _ => 7
  | .deployFileList => 8
  | .file _ => 8
  | .telnetCommander => 9
  | .deployer => 10

/-- Blocks are freed once, and all of them before the place `n`. -/
def FreedBefore (n : ℕ) (blocks : List DeployerBlock) : Prop :=
  blocks.Nodup ∧ ∀ b ∈ blocks, b.order < n

theorem FreedBefore.append {n : ℕ} {front blocks : List DeployerBlock} (h : FreedBefore n front)
    (hnodup : blocks.Nodup) (hat : ∀ b ∈ blocks, b.order = n) :
    FreedBefore (n + 1) (front ++ blocks) := by
  refine ⟨h.1.append hnodup fun b hfront hb => ?_, fun b hb => ?_⟩
  · have hlt := h.2 b hfront
    have heq := hat b hb
    omega
  · rcases List.mem_append.1 hb with hfront | hb
    · exact Nat.lt_succ_of_lt (h.2 b hfront)
    · rw [hat b hb]
      exact Nat.lt_succ_self n

theorem FreedBefore.safeFree {n : ℕ} {front : List DeployerBlock} (h : FreedBefore n front)
    (b : DeployerBlock) (hb : b.order = n) (isSet : Bool) :
    FreedBefore (n + 1) (front ++ safeFree b isSet) := by
  refine h.append (nodup_safeFree b isSet) fun block hblock => ?_
  rw [(mem_safeFree.1 hblock).2, hb]

/-- **A deployer is freed with all that it owns**, each thing once. -/
theorem deployerDestroy_frees {thiz : DeployerFields} (h : thiz.config.Sound) :
    ∃ freed, deployerDestroy (.live thiz) = .ok freed ∧ FreesAll thiz freed := by
  obtain ⟨mem, hmem, hnodes⟩ := releaseCommands_spec h
  obtain ⟨targets, htargets, htnodup, htmem⟩ := releaseList_spec
    (fun i j hij => DeployerBlock.target.inj hij)
    (fun i (hi : DeployerBlock.target i = .deployTargetList) => DeployerBlock.noConfusion hi)
    h.targets
  obtain ⟨files, hfiles, hfnodup, hfmem⟩ := releaseList_spec
    (fun i j hij => DeployerBlock.file.inj hij)
    (fun i (hi : DeployerBlock.file i = .deployFileList) => DeployerBlock.noConfusion hi)
    h.files
  refine ⟨_, by rw [deployerDestroy, hmem, ok_bind, htargets, ok_bind, hfiles, ok_bind], ?_, ?_,
    hnodes⟩
  · have hctx : FreedBefore 1 (safeFree .eventCbCtx thiz.eventCbCtx) :=
      FreedBefore.safeFree ⟨List.nodup_nil, fun b hb => absurd hb List.not_mem_nil⟩ _ rfl _
    have huploader := hctx.safeFree .ftpUploader rfl thiz.ftpUploader
    have hftpName := huploader.safeFree .ftpUsername rfl thiz.config.ftpUsername.isSome
    have hftp := hftpName.safeFree .ftpPassword rfl thiz.config.ftpPassword.isSome
    have htelnetName := hftp.safeFree .telnetUsername rfl thiz.config.telnetUsername.isSome
    have htelnet := htelnetName.safeFree .telnetPassword rfl thiz.config.telnetPassword.isSome
    have hcommands := htelnet.safeFree .telnetCommandList rfl thiz.config.telnetCommandList.isSome
    have hlists := (hcommands.append htnodup fun b hb => ?_).append hfnodup fun b hb => ?_
    · have hcommander := hlists.safeFree .telnetCommander rfl thiz.telnetCommander
      refine (hcommander.append (List.nodup_singleton _) fun b hb => ?_).1
      rw [List.mem_singleton.1 hb]
      rfl
    · rcases (htmem b).1 hb with ⟨-, rfl⟩ | ⟨i, -, rfl⟩ <;> rfl
    · rcases (hfmem b).1 hb with ⟨-, rfl⟩ | ⟨i, -, rfl⟩ <;> rfl
  · intro block
    simp only [List.mem_append, mem_safeFree, htmem, hfmem, List.mem_singleton]
    cases block <;> simp [DeployerFields.Owns]

/-! ### What the parser leaves -/

section Leaves

variable {α β : Type} {good : α → Prop} {good' : β → Prop}

/-- **Where the parser comes to an end**, what it leaves is good. -/
def Leaves (result : Except ConfigHalt α) (good : α → Prop) : Prop := ∀ a, result = .ok a → good a

theorem leaves_ok {a : α} (h : good a) : Leaves (.ok a) good := by
  rintro a' ha'
  cases ha'
  exact h

theorem leaves_error (e : ConfigHalt) : Leaves (.error e) good := by
  rintro a ha
  cases ha

theorem Leaves.bind {x : Except ConfigHalt α} {f : α → Except ConfigHalt β} (h : Leaves x good)
    (hf : ∀ a, good a → Leaves (f a) good') : Leaves (x >>= f) good' := by
  cases x with
  | error e => exact leaves_error e
  | ok a => exact hf a (h a rfl)

theorem leaves_true (x : Except ConfigHalt α) : Leaves x fun _ => True := fun _ _ => trivial

end Leaves

/-- Appending keeps the command list. -/
theorem CommandsSound.append {m : Mem (Option CText)} {list : Option DList}
    (h : CommandsSound m list) {place : Option Addr} {command : Option CText}
    {r : Ret × Mem (Option CText) × Option DList}
    (hrun : dlistAppend m list place command = .ok r) : CommandsSound r.2.1 r.2.2 := by
  cases list with
  | none =>
      cases hrun
      exact h
  | some l =>
      obtain ⟨hdata, cells, hrep⟩ := h l rfl
      by_cases hused : ∀ a, place = some a → m.nodes a ≠ none
      · rw [dlistAppend, dlistInsert_oom l _ _ hused] at hrun
        cases hrun
        exact h
      · push Not at hused
        obtain ⟨a, rfl, hfree⟩ := hused
        obtain ⟨m', l', happend, hrep', hdata', -⟩ := dlistAppend_spec hrep hfree command
        rw [happend] at hrun
        cases hrun
        rintro l₂ hl₂
        cases hl₂
        exact ⟨hdata'.trans hdata, _, hrep'⟩

/-- A line keeps the command list. -/
theorem CommandsSound.addCommand {env : CommandAllocs} {v v' : CommandReader}
    (h : CommandsSound v.mem v.list) (hrun : addCommand env v = .ok v') :
    CommandsSound v'.mem v'.list := by
  rw [Wsn.addCommand] at hrun
  obtain ⟨buffer, -, hrun⟩ := bind_eq_ok.1 hrun
  obtain ⟨text, -, hrun⟩ := bind_eq_ok.1 hrun
  obtain ⟨r, happend, hrun⟩ := bind_eq_ok.1 hrun
  cases hrun
  exact h.append happend

/-- A character keeps the command list. -/
theorem CommandsSound.commandChar {env : CommandAllocs} {c : UInt8} {v v' : CommandReader}
    (h : CommandsSound v.mem v.list) (hrun : commandChar env c v = .ok v') :
    CommandsSound v'.mem v'.list := by
  rw [Wsn.commandChar] at hrun
  split at hrun
  · split at hrun
    · exact h.addCommand hrun
    · cases hrun
      exact h
  · obtain ⟨buffer, -, hrun⟩ := bind_eq_ok.1 hrun
    cases hrun
    exact h

/-- **The command file** keeps the command list. -/
theorem CommandsSound.readCommands {env : CommandAllocs} {file : List UInt8} {v v' : CommandReader}
    (h : CommandsSound v.mem v.list) (hrun : readCommands env file v = .ok v') :
    CommandsSound v'.mem v'.list := by
  induction file generalizing v with
  | nil =>
      cases hrun
      exact h
  | cons c file ih =>
      rw [Wsn.readCommands] at hrun
      split at hrun
      · cases hrun
        exact h
      · obtain ⟨v₁, hchar, hrest⟩ := bind_eq_ok.1 hrun
        exact ih (h.commandChar hchar) hrest

/-- The configuration before its two lists are read. -/
structure Config.ListsUnread (c : Config) : Prop where
  commands : CommandsSound c.mem c.telnetCommandList
  targets : c.deployTargetList = none
  files : c.deployFileList = none

theorem Config.ListsUnread.sound {c : Config} (h : c.ListsUnread) : c.Sound where
  commands := h.commands
  targets := by simp [h.targets]
  files := by simp [h.files]

/-- The configuration before its last list is read. -/
structure Config.FilesUnread (c : Config) : Prop where
  sound : c.Sound
  files : c.deployFileList = none

theorem Config.ListsUnread.filesUnread {c : Config} (h : c.ListsUnread) : c.FilesUnread :=
  ⟨h.sound, h.files⟩

theorem listsUnread_configStart (count : ℕ) : (configStart count).ListsUnread := by
  refine ⟨?_, rfl, rfl⟩
  rintro l hl
  cases hl
  exact ⟨rfl, [], represents_create _ true⟩

section Sections

variable (env : ConfigEnv) (root : CJson) {s : Config}

theorem deployerParseFtp_leaves (h : s.ListsUnread) :
    Leaves (deployerParseFtp env root s) fun r => r.2.ListsUnread := by
  rw [deployerParseFtp]
  cases getObjectItem root confJsonFtp with
  | none => exact leaves_ok h
  | some ftp =>
      refine (leaves_true _).bind fun login _ => ?_
      cases login with
      | none => exact leaves_ok h
      | some login => exact leaves_ok ⟨h.commands, h.targets, h.files⟩

theorem parseCommandFile_leaves (item : CJson) (h : s.ListsUnread) :
    Leaves (parseCommandFile env item s) fun r => r.2.ListsUnread := by
  rw [parseCommandFile]
  cases item.valuestring with
  | none => exact leaves_error _
  | some path =>
      cases env.commandFile with
      | none => exact leaves_ok h
      | some file =>
          dsimp only
          cases hrun : readCommands env.commands file
              ⟨0, env.buffer, s.mem, s.telnetCommandList, 0⟩ with
          | error e => exact leaves_error _
          | ok v => exact leaves_ok ⟨CommandsSound.readCommands h.commands hrun, h.targets, h.files⟩

theorem deployerParseTelnet_leaves (h : s.ListsUnread) :
    Leaves (deployerParseTelnet env root s) fun r => r.2.ListsUnread := by
  rw [deployerParseTelnet]
  cases getObjectItem root confJsonTelnet with
  | none => exact leaves_ok h
  | some telnet =>
      refine (leaves_true _).bind fun login _ => ?_
      cases login with
      | none => exact leaves_ok h
      | some login =>
          have hlogin : ({ s with telnetUsername := login.1, telnetPassword := login.2 } :
              Config).ListsUnread := ⟨h.commands, h.targets, h.files⟩
          dsimp only
          cases getObjectItem telnet confJsonTelnetCommand with
          | none => exact leaves_ok hlogin
          | some item => exact parseCommandFile_leaves env item hlogin

/-- The loop over the targets keeps the length of the list. -/
theorem targetLoop_length (targets : CJson) (left i : ℕ) (list : List (Option CText)) :
    Leaves (targetLoop env targets left i list) fun list' => list'.length = list.length := by
  induction left generalizing i list with
  | zero => exact leaves_ok rfl
  | succ left ih =>
      rw [targetLoop]
      cases getArrayItem targets i with
      | none => exact ih (i + 1) list
      | some oneTarget =>
          refine (leaves_true _).bind fun target _ => ?_
          have hrest := ih (i + 1) (list.set i target)
          rwa [List.length_set] at hrest

/-- The loop over the files keeps the length of the list. -/
theorem fileLoop_length (files : CJson) (left i : ℕ) (list : List (Option ℕ)) :
    Leaves (fileLoop env files left i list) fun r => r.2.length = list.length := by
  induction left generalizing i list with
  | zero => exact leaves_ok rfl
  | succ left ih =>
      rw [fileLoop]
      cases getArrayItem files i with
      | none => exact ih (i + 1) list
      | some oneFile =>
          dsimp only
          cases oneFile.valuestring with
          | none => exact leaves_error _
          | some path =>
              dsimp only
              cases env.openFile i with
              | none => exact leaves_ok (List.length_set ..)
              | some fd =>
                  have hrest := ih (i + 1) (list.set i (some fd))
                  rwa [List.length_set] at hrest

theorem deployerParseDeployTargets_leaves (h : s.ListsUnread) :
    Leaves (deployerParseDeployTargets env root s) fun r => r.2.FilesUnread := by
  rw [deployerParseDeployTargets]
  cases getObjectItem root confJsonDeployTargets with
  | none => exact leaves_ok h.filesUnread
  | some targets =>
      have hcount : ({ s with deployTargetCount := getArraySize targets } : Config).ListsUnread :=
        ⟨h.commands, h.targets, h.files⟩
      dsimp only
      split
      · exact leaves_ok hcount.filesUnread
      split
      · exact leaves_ok ⟨⟨h.commands, fun list hlist => (by cases hlist), hcount.sound.files⟩,
          h.files⟩
      · refine (targetLoop_length env targets _ 0 _).bind fun list hlen => leaves_ok ⟨⟨h.commands,
          fun list' hlist' => ?_, hcount.sound.files⟩, h.files⟩
        cases hlist'
        rw [hlen, List.length_replicate]

theorem deployerParseDeployFiles_leaves (h : s.FilesUnread) :
    Leaves (deployerParseDeployFiles env root s) fun r => r.2.Sound := by
  rw [deployerParseDeployFiles]
  cases getObjectItem root confJsonDeployFiles with
  | none => exact leaves_ok h.sound
  | some files =>
      dsimp only
      split
      · refine leaves_ok ⟨h.sound.commands, h.sound.targets, fun list hlist => ?_⟩
        rw [h.files] at hlist
        cases hlist
      split
      · exact leaves_ok ⟨h.sound.commands, h.sound.targets, fun list hlist => by cases hlist⟩
      · refine (fileLoop_length env files _ 0 _).bind fun r hlen => leaves_ok ⟨h.sound.commands,
          h.sound.targets, fun list' hlist' => ?_⟩
        cases hlist'
        rw [hlen, List.length_replicate]

end Sections

/-! ### The whole parser -/

/-- A section, and what comes behind it; where the section fails, its fields stay. -/
def sectionFields (result : Except ConfigHalt (Ret × Config))
    (rest : Config → Except ConfigHalt (Ret × Config)) : Except ConfigHalt (Ret × Config) := do
  let r ← result
  if r.1 ≠ .ok then .ok (.fail, r.2) else rest r.2

/-- **The fields as the parser leaves them**, before the label `fail` where it goes there. -/
def parseFields (env : ConfigEnv) (root : CJson) (s : Config) : Except ConfigHalt (Ret × Config) :=
  sectionFields (deployerParseFtp env root s) fun s =>
    sectionFields (deployerParseTelnet env root s) fun s =>
      sectionFields (deployerParseDeployTargets env root s) fun s =>
        sectionFields (deployerParseDeployFiles env root s) fun s => .ok (.ok, s)

/-- The label `fail`: the deployer is destroyed unless all sections were read. -/
def destroyedOnFail (r : Ret × Config) : Ret × Option Config :=
  (r.1, if r.1 = .ok then some r.2 else none)

theorem parseSection_eq {result : Except ConfigHalt (Ret × Config)}
    {rest : Config → Except ConfigHalt (Ret × Option Config)}
    {rest' : Config → Except ConfigHalt (Ret × Config)}
    (h : ∀ s, rest s = (rest' s).map destroyedOnFail) :
    parseSection result rest = (sectionFields result rest').map destroyedOnFail := by
  cases result with
  | error e => rfl
  | ok r =>
      rw [parseSection, sectionFields, ok_bind_config, ok_bind_config]
      split
      · rfl
      · exact h r.2

/-- **`deployer_parse_config_file`** leaves these fields, or has destroyed the deployer. -/
theorem deployerParseConfigFile_eq (env : ConfigEnv) (root : CJson) (s : Config) :
    deployerParseConfigFile env root s = (parseFields env root s).map destroyedOnFail :=
  parseSection_eq fun _ => parseSection_eq fun _ => parseSection_eq fun _ => parseSection_eq
    fun _ => rfl

/-- Sections, one behind the other. -/
theorem Leaves.sectionFields {result : Except ConfigHalt (Ret × Config)}
    {rest : Config → Except ConfigHalt (Ret × Config)} {good good' : Config → Prop}
    (h : Leaves result fun r => good r.2) (himp : ∀ s, good s → good' s)
    (hrest : ∀ s, good s → Leaves (rest s) fun r => good' r.2) :
    Leaves (sectionFields result rest) fun r => good' r.2 := by
  refine h.bind fun r hr => ?_
  split
  · exact leaves_ok (himp r.2 hr)
  · exact hrest r.2 hr

/-- **Wherever the parser ends, the fields are sound.** -/
theorem parseFields_sound (env : ConfigEnv) (root : CJson) {s : Config} (h : s.ListsUnread) :
    Leaves (parseFields env root s) fun r => r.2.Sound := by
  refine (deployerParseFtp_leaves env root h).sectionFields (fun _ hs => hs.sound) fun s hs => ?_
  refine (deployerParseTelnet_leaves env root hs).sectionFields (fun _ hs => hs.sound)
    fun s hs => ?_
  refine (deployerParseDeployTargets_leaves env root hs).sectionFields (fun _ hs => hs.sound)
    fun s hs => ?_
  exact (deployerParseDeployFiles_leaves env root hs).sectionFields (fun _ hs => hs)
    fun s hs => leaves_ok hs

/-- **Destroying is right wherever the parser ends**, at the label `fail` as much as behind a
configuration that was read. -/
theorem parseFields_frees (env : ConfigEnv) (root : CJson) (thiz : DeployerFields)
    (h : thiz.config.ListsUnread) :
    Leaves (parseFields env root thiz.config) fun r =>
      ∃ freed, deployerDestroy (.live { thiz with config := r.2 }) = .ok freed ∧
        FreesAll { thiz with config := r.2 } freed :=
  fun r hr => deployerDestroy_frees (parseFields_sound env root h r hr)

/-! ### Who destroys the deployer -/

/-- **Where the parser fails, the deployer is gone** when `deployer_init` returns. -/
theorem deployerInit_tree_fail {env : ConfigEnv} {thiz : DeployerFields} {root : CJson} {ret : Ret}
    {ptr : DeployerPtr} (hret : ret ≠ .ok)
    (h : deployerInit env (some thiz) (some (.tree root)) = .ok (ret, ptr)) : ptr = .freed := by
  rw [deployerInit, deployerParseConfigFile_eq] at h
  cases hrun : parseFields env root thiz.config with
  | error e =>
      rw [hrun] at h
      cases h
  | ok r =>
      rw [hrun] at h
      cases h
      have hfail : r.1 ≠ .ok := hret
      rw [destroyedOnFail, if_neg hfail]
      rfl

/-- **The parser fails** exactly on a flaw that it refuses. -/
theorem deployerInit_tree_fail_iff (env : ConfigEnv) (count : ℕ) (root : CJson) :
    (∃ ret ptr, deployerInit env (some (deployerCreated count)) (some (.tree root)) =
        .ok (ret, ptr) ∧ ret ≠ .ok) ↔ firstFlaw (demands env root) = some .refused := by
  have hinit : deployerInit env (some (deployerCreated count)) (some (.tree root)) =
      deployerParseConfigFile env root (configStart count) >>= fun r =>
        .ok (r.1, (deployerCreated count).parsed r.2) := rfl
  have houtcome := deployerParseConfigFile_outcome env root count
  rw [hinit]
  generalize deployerParseConfigFile env root (configStart count) = result at houtcome
  cases houtcome with
  | loaded hflaw hgood =>
      rw [hflaw]
      refine iff_of_false ?_ (by simp)
      rintro ⟨ret, ptr, hrun, hret⟩
      cases hrun
      exact hret rfl
  | refused hflaw => exact iff_of_true ⟨.fail, _, rfl, by decide⟩ hflaw
  | halted hflaw =>
      rw [hflaw]
      refine iff_of_false ?_ (by simp)
      rintro ⟨ret, ptr, hrun, -⟩
      cases hrun

/-- A deployer that is left as it was is freed with all that it owns. -/
theorem keepsOwnership_of_live {env : ConfigEnv} {thiz : DeployerFields}
    {confFile : Option ConfFile} {ret : Ret} (hsound : thiz.config.Sound)
    (h : deployerInit env (some thiz) confFile = .ok (ret, .live thiz)) :
    KeepsOwnership env thiz confFile := by
  rintro ret' ptr hrun -
  rw [h] at hrun
  cases hrun
  obtain ⟨freed, hdestroy, hfrees⟩ := deployerDestroy_frees hsound
  exact ⟨thiz, freed, rfl, hdestroy, hfrees⟩

/-- What is read into a tree stays with the caller only if the parser does not fail. -/
theorem keepsOwnership_tree {env : ConfigEnv} {thiz : DeployerFields} {root : CJson} :
    KeepsOwnership env thiz (some (.tree root)) ↔
      ¬ ∃ ret ptr, deployerInit env (some thiz) (some (.tree root)) = .ok (ret, ptr) ∧
        ret ≠ .ok := by
  constructor
  · rintro h ⟨ret, ptr, hrun, hret⟩
    obtain ⟨s, freed, hptr, -⟩ := h ret ptr hrun hret
    rw [deployerInit_tree_fail hret hrun] at hptr
    cases hptr
  · intro h ret ptr hrun hret
    exact absurd ⟨ret, ptr, hrun, hret⟩ h

/-- **When a failed initialisation leaves the deployer to its caller**: exactly if it does not come
from a flaw that the parser refuses. -/
theorem keepsOwnership_iff (env : ConfigEnv) (count : ℕ) (confFile : Option ConfFile) :
    KeepsOwnership env (deployerCreated count) confFile ↔
      ∀ root, confFile = some (.tree root) → firstFlaw (demands env root) ≠ some .refused := by
  have hsound : (deployerCreated count).config.Sound := (listsUnread_configStart count).sound
  rcases confFile with _ | _ | _ | _ | root
  · exact iff_of_true (keepsOwnership_of_live hsound rfl) fun root hroot => by cases hroot
  · exact iff_of_true (keepsOwnership_of_live hsound rfl) fun root hroot => by cases hroot
  · refine iff_of_true ?_ fun root hroot => by cases hroot
    rintro ret ptr hrun
    cases hrun
  · exact iff_of_true (keepsOwnership_of_live hsound rfl) fun root hroot => by cases hroot
  · rw [keepsOwnership_tree, deployerInit_tree_fail_iff]
    refine ⟨fun h root' heq => ?_, fun h => h root rfl⟩
    cases heq
    exact h

/-- **`{}` has no section `ftp`**: the parser refuses it, and frees the deployer that its caller
goes on to destroy. -/
theorem emptyObject_destroyed_twice :
    deployerInit configCallsSucceed (some (deployerCreated 0)) (some (.tree (.object []))) =
        .ok (.fail, .freed) ∧
      deployerDestroy .freed = .error .dangling ∧
      ¬ KeepsOwnership configCallsSucceed (deployerCreated 0) (some (.tree (.object []))) := by
  refine ⟨rfl, rfl, fun h => ?_⟩
  obtain ⟨s, freed, hptr, -⟩ := h .fail .freed rfl (by decide)
  cases hptr

end Wsn
