/-
**The configuration of the deployer.**

`deployer_parse_config_file` goes through the tree that cJSON has made of the configuration file,
section by section.  A member that is missing is refused.  A member that is there is taken for a
string, and its `valuestring` handed to `strdup`, `fopen` or `open`.

What a section asks of the tree is listed in the order in which the parser comes to it.  The parser
follows the list up to the first thing that is not as it is asked for.

Main definitions:

* `CJson` — the tree;
* `deployerParseFtp`, `deployerParseTelnet`, `deployerParseDeployTargets`,
  `deployerParseDeployFiles`, `deployerParseConfigFile` — the functions of the source;
* `LoadedOrRefused` — the configuration is loaded completely, or refused;
* `Verdict`, `demands` — what is asked of the tree, and how it is met.

Main results:

* `deployerParseFtp_outcome`, `deployerParseTelnet_outcome`, `deployerParseDeployTargets_outcome`,
  `deployerParseDeployFiles_outcome` — what the sections come to;
* `loadedOrRefused_iff` — a configuration is loaded or refused exactly if the first thing that is
  not as it is asked for is one that the parser refuses.
-/

import WsnPlatform.CommandFile

set_option relaxedAutoImplicit false
set_option autoImplicit false

namespace Wsn

/-! ### The tree -/

/-- **`cJSON`**: a value, and for a container its chain of children with their names. -/
inductive CJson
  | false
  | true
  | null
  | number
  | string (valuestring : CText)
  | array (child : List (Option CText × CJson))
  | object (child : List (Option CText × CJson))

/-- `valuestring`; it is `NULL` on everything but a string. -/
def CJson.valuestring : CJson → Option CText
  | .string valuestring => some valuestring
  | _ => none

/-- `child`, with the items that it leads to. -/
def CJson.child : CJson → List (Option CText × CJson)
  | .array child => child
  | .object child => child
  | _ => []

/-- `tolower` in the C locale. -/
def toLower (c : UInt8) : UInt8 := if 65 ≤ c ∧ c ≤ 90 then c + 32 else c

/-- `cJSON_strcasecmp` finds the names equal; the first may be `NULL`. -/
def sameName (name : Option CText) (key : CText) : Bool :=
  match name with
  | none => false
  | some name => name.map toLower = key.map toLower

/-- `cJSON_GetObjectItem`. -/
def getObjectItem (object : CJson) (key : CText) : Option CJson :=
  (object.child.find? fun c => sameName c.1 key).map Prod.snd

/-- `cJSON_GetArraySize`. -/
def getArraySize (array : CJson) : ℕ := array.child.length

/-- `cJSON_GetArrayItem`. -/
def getArrayItem (array : CJson) (item : ℕ) : Option CJson := array.child[item]?.map Prod.snd

/-! ### The parsers -/

/-- `CONF_JSON_FTP`. -/
def confJsonFtp : CText := literal "ftp"

/-- `CONF_JSON_FTP_USERNAME`. -/
def confJsonFtpUsername : CText := literal "username"

/-- `CONF_JSON_FTP_PASSWORD`. -/
def confJsonFtpPassword : CText := literal "password"

/-- `CONF_JSON_TELNET`. -/
def confJsonTelnet : CText := literal "telnet"

/-- `CONF_JSON_TELNET_USERNAME`. -/
def confJsonTelnetUsername : CText := literal "username"

/-- `CONF_JSON_TELNET_PASSWORD`. -/
def confJsonTelnetPassword : CText := literal "password"

/-- `CONF_JSON_TELNET_COMMAND`. -/
def confJsonTelnetCommand : CText := literal "command file"

/-- `CONF_JSON_DEPLOY_TARGETS`. -/
def confJsonDeployTargets : CText := literal "deploy targets"

/-- `CONF_JSON_DEPLOY_FILES`. -/
def confJsonDeployFiles : CText := literal "deploy files"

/-- Why the parser does not return. -/
inductive ConfigHalt
  /-- `strdup`, `fopen`, `open` or `fread` is handed `NULL`. -/
  | nullArgument
  /-- The debug output reads a member that is missing. -/
  | nullDeref
  /-- The loop over the command file. -/
  | command (e : Fault)

/-- Whether the two `strdup` calls of a section with a user name and a password succeed. -/
structure LoginAllocs where
  username : Bool
  pass : Bool

/-- What the calls of the parser return. -/
structure ConfigEnv where
  /-- `_DEBUG` is defined. -/
  debugBuild : Bool
  ftp : LoginAllocs
  telnet : LoginAllocs
  /-- What the command file holds; `none` when `fopen` fails. -/
  commandFile : Option (List UInt8)
  /-- `buffer` before the loop over the command file. -/
  buffer : List.Vector UInt8 commandBufferSize
  commands : CommandAllocs
  mallocTargets : Bool
  /-- `strdup` of the `i`th target. -/
  target : ℕ → Bool
  mallocFiles : Bool
  /-- The descriptor of the `i`th file; `none` when `open` returns `-1`. -/
  openFile : ℕ → Option ℕ

/-- The fields of the deployer that the parser fills. -/
structure Config where
  ftpUsername : Option CText
  ftpPassword : Option CText
  telnetUsername : Option CText
  telnetPassword : Option CText
  telnetCommandList : Option DList
  /-- The nodes of the command list. -/
  mem : Mem (Option CText)
  deployTargetCount : ℕ
  deployTargetList : Option (List (Option CText))
  deployFileCount : ℕ
  /-- `none` is `-1`. -/
  deployFileList : Option (List (Option ℕ))

/-- `strdup` of a `valuestring`. -/
def strdup (succeeds : Bool) (valuestring : Option CText) : Except ConfigHalt (Option CText) :=
  match valuestring with
  | none => .error .nullArgument
  | some text => .ok (if succeeds then some text else none)

/-- The debug output of a member. -/
def debugValuestring (debugBuild : Bool) (item : Option CJson) : Except ConfigHalt Unit :=
  match item with
  | none => if debugBuild then .error .nullDeref else .ok ()
  | some _ => .ok ()

/-- The password of a section, which may be missing. -/
def parsePassword (debugBuild succeeds : Bool) (item : Option CJson) :
    Except ConfigHalt (Option CText) := do
  let pass ← match item with
    | none => strdup succeeds (some [])
    | some item => strdup succeeds item.valuestring
  debugValuestring debugBuild item
  .ok pass

/-- The user name and the password of a section; `none` when there is no user name. -/
def parseLogin (debugBuild : Bool) (env : LoginAllocs) (part : CJson) (keyUsername keyPass : CText) :
    Except ConfigHalt (Option (Option CText × Option CText)) :=
  match getObjectItem part keyUsername with
  | none => .ok none
  | some username => do
      let name ← strdup env.username username.valuestring
      let pass ← parsePassword debugBuild env.pass (getObjectItem part keyPass)
      .ok (some (name, pass))

/-- **`deployer_parse_ftp`**. -/
def deployerParseFtp (env : ConfigEnv) (root : CJson) (s : Config) :
    Except ConfigHalt (Ret × Config) :=
  match getObjectItem root confJsonFtp with
  | none => .ok (.fail, s)
  | some ftp => do
      let login ← parseLogin env.debugBuild env.ftp ftp confJsonFtpUsername confJsonFtpPassword
      match login with
      | none => .ok (.fail, s)
      | some (name, pass) => .ok (.ok, { s with ftpUsername := name, ftpPassword := pass })

/-- The command file is opened and read. -/
def parseCommandFile (env : ConfigEnv) (item : CJson) (s : Config) :
    Except ConfigHalt (Ret × Config) :=
  match item.valuestring with
  | none => .error .nullArgument
  | some _ =>
      match env.commandFile with
      | none => .ok (.fail, s)
      | some file =>
          match readCommands env.commands file ⟨0, env.buffer, s.mem, s.telnetCommandList, 0⟩ with
          | .error e => .error (.command e)
          | .ok v => .ok (.ok, { s with telnetCommandList := v.list, mem := v.mem })

/-- **`deployer_parse_telnet`**. -/
def deployerParseTelnet (env : ConfigEnv) (root : CJson) (s : Config) :
    Except ConfigHalt (Ret × Config) :=
  match getObjectItem root confJsonTelnet with
  | none => .ok (.fail, s)
  | some telnet => do
      let login ← parseLogin env.debugBuild env.telnet telnet confJsonTelnetUsername
        confJsonTelnetPassword
      match login with
      | none => .ok (.fail, s)
      | some (name, pass) =>
          let s := { s with telnetUsername := name, telnetPassword := pass }
          match getObjectItem telnet confJsonTelnetCommand with
          | none => .ok (.fail, s)
          | some item => parseCommandFile env item s

/-- The loop over the targets: how many are left, the index, and the list. -/
def targetLoop (env : ConfigEnv) (targets : CJson) :
    ℕ → ℕ → List (Option CText) → Except ConfigHalt (List (Option CText))
  | 0, _, list => .ok list
  | left + 1, i, list =>
      match getArrayItem targets i with
      | none => targetLoop env targets left (i + 1) list
      | some oneTarget => do
          let target ← strdup (env.target i) oneTarget.valuestring
          targetLoop env targets left (i + 1) (list.set i target)

/-- **`deployer_parse_deploy_targets`**. -/
def deployerParseDeployTargets (env : ConfigEnv) (root : CJson) (s : Config) :
    Except ConfigHalt (Ret × Config) :=
  match getObjectItem root confJsonDeployTargets with
  | none => .ok (.fail, s)
  | some targets =>
      let count := getArraySize targets
      let s := { s with deployTargetCount := count }
      if count = 0 then .ok (.fail, s)
      else if env.mallocTargets = false then .ok (.fail, { s with deployTargetList := none })
      else do
        let list ← targetLoop env targets count 0 (List.replicate count none)
        .ok (.ok, { s with deployTargetList := some list })

/-- The loop over the files; the result tells whether every `open` has succeeded. -/
def fileLoop (env : ConfigEnv) (files : CJson) :
    ℕ → ℕ → List (Option ℕ) → Except ConfigHalt (Ret × List (Option ℕ))
  | 0, _, list => .ok (.ok, list)
  | left + 1, i, list =>
      match getArrayItem files i with
      | none => fileLoop env files left (i + 1) list
      | some oneFile =>
          match oneFile.valuestring with
          | none => .error .nullArgument
          | some _ =>
              match env.openFile i with
              | none => .ok (.fail, list.set i none)
              | some fd => fileLoop env files left (i + 1) (list.set i (some fd))

/-- **`deployer_parse_deploy_files`**. -/
def deployerParseDeployFiles (env : ConfigEnv) (root : CJson) (s : Config) :
    Except ConfigHalt (Ret × Config) :=
  match getObjectItem root confJsonDeployFiles with
  | none => .ok (.fail, s)
  | some files =>
      let count := getArraySize files
      let s := { s with deployFileCount := count }
      if count = 0 then .ok (.fail, s)
      else if env.mallocFiles = false then .ok (.fail, { s with deployFileList := none })
      else do
        let r ← fileLoop env files count 0 (List.replicate count none)
        .ok (r.1, { s with deployFileList := some r.2 })

/-- A section, and what comes behind it.  Where the section fails, the deployer is destroyed at the
label `fail`, and there are no fields left. -/
def parseSection (result : Except ConfigHalt (Ret × Config))
    (rest : Config → Except ConfigHalt (Ret × Option Config)) :
    Except ConfigHalt (Ret × Option Config) := do
  let r ← result
  if r.1 ≠ .ok then .ok (.fail, none) else rest r.2

/-- **`deployer_parse_config_file`**. -/
def deployerParseConfigFile (env : ConfigEnv) (root : CJson) (s : Config) :
    Except ConfigHalt (Ret × Option Config) :=
  parseSection (deployerParseFtp env root s) fun s =>
    parseSection (deployerParseTelnet env root s) fun s =>
      parseSection (deployerParseDeployTargets env root s) fun s =>
        parseSection (deployerParseDeployFiles env root s) fun s => .ok (.ok, some s)

/-- The fields as `deployer_create` leaves them; it does not set `deploy_target_count`. -/
def configStart (deployTargetCount : ℕ) : Config where
  ftpUsername := none
  ftpPassword := none
  telnetUsername := none
  telnetPassword := none
  telnetCommandList := some (dlistCreate true)
  mem := .empty
  deployTargetCount := deployTargetCount
  deployTargetList := none
  deployFileCount := 0
  deployFileList := none

/-! ### What is to come of it -/

/-- **A configuration that is complete.** -/
structure Config.Complete (c : Config) : Prop where
  ftp : c.ftpUsername ≠ none ∧ c.ftpPassword ≠ none
  telnet : c.telnetUsername ≠ none ∧ c.telnetPassword ≠ none
  targets : ∃ list, c.deployTargetList = some list ∧ list.length = c.deployTargetCount ∧
    list ≠ [] ∧ none ∉ list
  files : ∃ list, c.deployFileList = some list ∧ list.length = c.deployFileCount ∧ none ∉ list

/-- **The configuration is loaded completely, or refused**: the parser returns, and `RET_OK` only
with a configuration that is complete. -/
def LoadedOrRefused (env : ConfigEnv) (root : CJson) (s : Config) : Prop :=
  ∃ r, deployerParseConfigFile env root s = .ok r ∧
    (r.1 = .ok → ∃ c, r.2 = some c ∧ c.Complete)

/-! ### What is asked of the tree -/

/-- How a thing that is asked of the tree is met: it is as it is asked for, or not, and then the
parser refuses the configuration or does not notice. -/
inductive Verdict
  | met
  | refused
  | unnoticed
  deriving DecidableEq

/-- The verdict on a member that is needed and was found, or not, and goes on if it is a string. -/
def needed (item : Option CJson) (onString : Verdict) : Verdict :=
  match item with
  | none => .refused
  | some item => if item.valuestring.isSome then onString else .unnoticed

/-- The verdict on a password, which may be missing except for the debug output. -/
def allowed (debugBuild : Bool) (item : Option CJson) : Verdict :=
  match item with
  | none => if debugBuild then .unnoticed else .met
  | some item => if item.valuestring.isSome then .met else .unnoticed

/-- A member of a section. -/
def member (root : CJson) (keyPart key : CText) : Option CJson :=
  (getObjectItem root keyPart).bind fun part => getObjectItem part key

/-- The verdict on the command file. -/
def commandVerdict (env : ConfigEnv) : Verdict :=
  match env.commandFile with
  | none => .refused
  | some file => if bufferHolds 0 file then .met else .unnoticed

/-- The verdicts on the items of a list. -/
def itemDemands (list : CJson) (onString : ℕ → Verdict) : List Verdict :=
  list.child.mapIdx fun i c => needed (some c.2) (onString i)

/-- The verdicts on a list of targets or files and its items. -/
def listDemands (malloc : Bool) (item : Option CJson) (onString : ℕ → Verdict) : List Verdict :=
  match item with
  | none => [.refused]
  | some list =>
      if getArraySize list = 0 ∨ malloc = false then [.refused] else itemDemands list onString

/-- What the two sections with a user name ask for. -/
def loginDemands (env : ConfigEnv) (root : CJson) (keyPart keyUsername keyPass : CText) :
    List Verdict :=
  [needed (member root keyPart keyUsername) .met,
    allowed env.debugBuild (member root keyPart keyPass)]

/-- **What is asked of the tree**, in the order in which the parser comes to it. -/
def demands (env : ConfigEnv) (root : CJson) : List Verdict :=
  loginDemands env root confJsonFtp confJsonFtpUsername confJsonFtpPassword ++
    (loginDemands env root confJsonTelnet confJsonTelnetUsername confJsonTelnetPassword ++
      [needed (member root confJsonTelnet confJsonTelnetCommand) (commandVerdict env)] ++
    (listDemands env.mallocTargets (getObjectItem root confJsonDeployTargets) (fun _ => .met) ++
      listDemands env.mallocFiles (getObjectItem root confJsonDeployFiles)
        fun i => if (env.openFile i).isSome then .met else .refused))

/-- The first thing that is not as it is asked for. -/
def firstFlaw (verdicts : List Verdict) : Option Verdict := verdicts.find? (· ≠ .met)

/-- No `strdup` of a user name, a password or a target fails. -/
def StrdupsSucceed (env : ConfigEnv) (root : CJson) : Prop :=
  (env.ftp.username = true ∧ env.ftp.pass = true) ∧
    (env.telnet.username = true ∧ env.telnet.pass = true) ∧
      ∀ targets, getObjectItem root confJsonDeployTargets = some targets →
        ∀ i < getArraySize targets, env.target i = true

/-- **The first flaw is one that the parser refuses**, or there is none and no `strdup` fails. -/
def FirstFlawRefused (env : ConfigEnv) (root : CJson) : Prop :=
  match firstFlaw (demands env root) with
  | some .unnoticed => False
  | some _ => True
  | none => StrdupsSucceed env root

/-! ### What the sections come to -/

@[simp] theorem firstFlaw_nil : firstFlaw [] = none := rfl

@[simp] theorem firstFlaw_met (verdicts : List Verdict) :
    firstFlaw (.met :: verdicts) = firstFlaw verdicts := rfl

@[simp] theorem firstFlaw_refused (verdicts : List Verdict) :
    firstFlaw (.refused :: verdicts) = some .refused := rfl

@[simp] theorem firstFlaw_unnoticed (verdicts : List Verdict) :
    firstFlaw (.unnoticed :: verdicts) = some .unnoticed := rfl

theorem firstFlaw_append (a b : List Verdict) :
    firstFlaw (a ++ b) = (firstFlaw a).or (firstFlaw b) :=
  List.find?_append

/-- **A parser follows the list of what it asks for**, up to the first flaw. -/
inductive Follows {β : Type} (verdicts : List Verdict) (good : β → Prop) :
    Except ConfigHalt (Ret × β) → Prop
  | loaded {b : β} : firstFlaw verdicts = none → good b → Follows verdicts good (.ok (.ok, b))
  | refused {b : β} : firstFlaw verdicts = some .refused → Follows verdicts good (.ok (.fail, b))
  | halted {e : ConfigHalt} : firstFlaw verdicts = some .unnoticed →
      Follows verdicts good (.error e)

section Follows

variable {β : Type} {a b : List Verdict} {good good' : β → Prop}
  {result : Except ConfigHalt (Ret × β)}

/-- What stands before is as it is asked for. -/
theorem Follows.behind (h : Follows b good result) (ha : firstFlaw a = none) :
    Follows (a ++ b) good result := by
  have hflaw : firstFlaw (a ++ b) = firstFlaw b := by rw [firstFlaw_append, ha, Option.none_or]
  cases h with
  | loaded hb hgood => exact .loaded (hflaw.trans hb) hgood
  | refused hb => exact .refused (hflaw.trans hb)
  | halted hb => exact .halted (hflaw.trans hb)

theorem Follows.imp (h : Follows a good result) (himp : ∀ b, good b → good' b) :
    Follows a good' result := by
  cases h with
  | loaded ha hgood => exact .loaded ha (himp _ hgood)
  | refused ha => exact .refused ha
  | halted ha => exact .halted ha

theorem Follows.refused_append (ha : firstFlaw a = some .refused) {x : β} :
    Follows (a ++ b) good (.ok (.fail, x)) :=
  .refused (by rw [firstFlaw_append, ha, Option.some_or])

theorem Follows.halted_append (ha : firstFlaw a = some .unnoticed) {e : ConfigHalt} :
    Follows (a ++ b) good (.error e) :=
  .halted (by rw [firstFlaw_append, ha, Option.some_or])

end Follows

/-- **A section, and what comes behind it** if it does not fail. -/
theorem Follows.parseSection {a b : List Verdict} {good : Config → Prop}
    {good' : Option Config → Prop} {result : Except ConfigHalt (Ret × Config)}
    {rest : Config → Except ConfigHalt (Ret × Option Config)} (h : Follows a good result)
    (hrest : ∀ s, good s → Follows b good' (rest s)) :
    Follows (a ++ b) good' (parseSection result rest) := by
  cases h with
  | loaded ha hgood => exact (hrest _ hgood).behind ha
  | refused ha => exact .refused_append ha
  | halted ha => exact .halted_append ha

/-- The user name and the password are set where `strdup` has succeeded. -/
def LoginSet (env : LoginAllocs) (name pass : Option CText) : Prop :=
  (name ≠ none ↔ env.username = true) ∧ (pass ≠ none ↔ env.pass = true)

theorem ok_bind_config {α β : Type} (a : α) (f : α → Except ConfigHalt β) :
    (Except.ok a >>= f) = f a := rfl

theorem strdup_some (succeeds : Bool) (text : CText) :
    ∃ copy, strdup succeeds (some text) = .ok copy ∧ (copy ≠ none ↔ succeeds = true) := by
  cases succeeds with
  | false => exact ⟨none, rfl, by simp⟩
  | true => exact ⟨some text, rfl, by simp⟩

theorem parsePassword_outcome (debugBuild succeeds : Bool) (item : Option CJson) :
    allowed debugBuild item = .met ∧
        (∃ pass, parsePassword debugBuild succeeds item = .ok pass ∧
          (pass ≠ none ↔ succeeds = true)) ∨
      allowed debugBuild item = .unnoticed ∧
        ∃ e, parsePassword debugBuild succeeds item = .error e := by
  cases item with
  | none =>
      obtain ⟨copy, hcopy, hset⟩ := strdup_some succeeds []
      cases debugBuild with
      | false =>
          refine Or.inl ⟨rfl, copy, ?_, hset⟩
          rw [parsePassword]
          dsimp only
          rw [hcopy]
          rfl
      | true =>
          refine Or.inr ⟨rfl, .nullDeref, ?_⟩
          rw [parsePassword]
          dsimp only
          rw [hcopy]
          rfl
  | some item =>
      cases hvalue : item.valuestring with
      | none =>
          refine Or.inr ⟨by simp [allowed, hvalue], .nullArgument, ?_⟩
          rw [parsePassword]
          dsimp only
          rw [hvalue]
          rfl
      | some text =>
          obtain ⟨copy, hcopy, hset⟩ := strdup_some succeeds text
          refine Or.inl ⟨by simp [allowed, hvalue], copy, ?_, hset⟩
          rw [parsePassword]
          dsimp only
          rw [hvalue, hcopy]
          rfl

/-- **The user name and the password of a section.** -/
theorem parseLogin_outcome (debugBuild : Bool) (env : LoginAllocs) (part : CJson)
    (keyUsername keyPass : CText) :
    firstFlaw [needed (getObjectItem part keyUsername) .met,
        allowed debugBuild (getObjectItem part keyPass)] = none ∧
        (∃ name pass, parseLogin debugBuild env part keyUsername keyPass = .ok (some (name, pass)) ∧
          LoginSet env name pass) ∨
      firstFlaw [needed (getObjectItem part keyUsername) .met,
          allowed debugBuild (getObjectItem part keyPass)] = some .refused ∧
        parseLogin debugBuild env part keyUsername keyPass = .ok none ∨
      firstFlaw [needed (getObjectItem part keyUsername) .met,
          allowed debugBuild (getObjectItem part keyPass)] = some .unnoticed ∧
        ∃ e, parseLogin debugBuild env part keyUsername keyPass = .error e := by
  rw [parseLogin]
  cases getObjectItem part keyUsername with
  | none => exact Or.inr (Or.inl ⟨rfl, rfl⟩)
  | some username =>
      dsimp only
      cases hvalue : username.valuestring with
      | none => exact Or.inr (Or.inr ⟨by simp [needed, hvalue], .nullArgument, rfl⟩)
      | some text =>
          obtain ⟨name, hname, hset⟩ := strdup_some env.username text
          have hneeded : needed (some username) .met = .met := by simp [needed, hvalue]
          rw [hname, hneeded, firstFlaw_met]
          rcases parsePassword_outcome debugBuild env.pass (getObjectItem part keyPass) with
            ⟨hmet, pass, hpass, hset'⟩ | ⟨hflaw, e, he⟩
          · exact Or.inl ⟨by rw [hmet]; rfl, name, pass, by rw [hpass]; rfl, hset, hset'⟩
          · exact Or.inr (Or.inr ⟨by rw [hflaw]; rfl, e, by rw [he]; rfl⟩)

/-- **What `deployer_parse_ftp` comes to.** -/
theorem deployerParseFtp_outcome (env : ConfigEnv) (root : CJson) (s : Config) :
    Follows (loginDemands env root confJsonFtp confJsonFtpUsername confJsonFtpPassword)
      (fun s' => ∃ name pass, LoginSet env.ftp name pass ∧
        s' = { s with ftpUsername := name, ftpPassword := pass })
      (deployerParseFtp env root s) := by
  rw [loginDemands, deployerParseFtp, member, member]
  cases getObjectItem root confJsonFtp with
  | none => exact .refused rfl
  | some part =>
      dsimp only [Option.bind_some]
      rcases parseLogin_outcome env.debugBuild env.ftp part confJsonFtpUsername
          confJsonFtpPassword with ⟨hflaw, name, pass, hrun, hset⟩ | ⟨hflaw, hrun⟩ | ⟨hflaw, e, hrun⟩
      · rw [hrun]
        exact .loaded hflaw ⟨name, pass, hset, rfl⟩
      · rw [hrun]
        exact .refused hflaw
      · rw [hrun]
        exact .halted hflaw

/-- The command file. -/
theorem parseCommandFile_outcome (env : ConfigEnv) (item : CJson) {s : Config} {l : DList}
    {cells : List (Addr × Option CText)} (hlist : s.telnetCommandList = some l)
    (hrep : l.Represents s.mem cells) :
    Follows [needed (some item) (commandVerdict env)]
      (fun s' => ∃ list mem, s' = { s with telnetCommandList := list, mem := mem })
      (parseCommandFile env item s) := by
  rw [parseCommandFile]
  cases hvalue : item.valuestring with
  | none => exact .halted (by simp [needed, hvalue])
  | some path =>
      have hneeded : needed (some item) (commandVerdict env) = commandVerdict env := by
        simp [needed, hvalue]
      rw [hneeded, commandVerdict]
      cases env.commandFile with
      | none => exact .refused rfl
      | some file =>
          have hisOk := readCommands_isOk env.commands file
            (v := ⟨0, env.buffer, s.mem, s.telnetCommandList, 0⟩) hlist hrep
          dsimp only at hisOk ⊢
          cases hrun : readCommands env.commands file
              ⟨0, env.buffer, s.mem, s.telnetCommandList, 0⟩ with
          | error e =>
              have hholds : ¬ bufferHolds 0 file = true := by
                rw [← hisOk, hrun]
                rintro ⟨v, hv⟩
                cases hv
              rw [if_neg hholds]
              exact .halted rfl
          | ok v =>
              rw [if_pos (hisOk.1 ⟨v, hrun⟩)]
              exact .loaded rfl ⟨v.list, v.mem, rfl⟩

/-- **What `deployer_parse_telnet` comes to.** -/
theorem deployerParseTelnet_outcome (env : ConfigEnv) (root : CJson) {s : Config} {l : DList}
    {cells : List (Addr × Option CText)} (hlist : s.telnetCommandList = some l)
    (hrep : l.Represents s.mem cells) :
    Follows (loginDemands env root confJsonTelnet confJsonTelnetUsername confJsonTelnetPassword ++
        [needed (member root confJsonTelnet confJsonTelnetCommand) (commandVerdict env)])
      (fun s' => ∃ name pass list mem, LoginSet env.telnet name pass ∧
        s' = { s with telnetUsername := name, telnetPassword := pass, telnetCommandList := list,
                      mem := mem })
      (deployerParseTelnet env root s) := by
  rw [loginDemands, deployerParseTelnet, member, member, member]
  cases getObjectItem root confJsonTelnet with
  | none => exact .refused rfl
  | some part =>
      dsimp only [Option.bind_some]
      rcases parseLogin_outcome env.debugBuild env.telnet part confJsonTelnetUsername
          confJsonTelnetPassword with
        ⟨hflaw, name, pass, hrun, hset⟩ | ⟨hflaw, hrun⟩ | ⟨hflaw, e, hrun⟩
      · rw [hrun, ok_bind_config]
        dsimp only
        cases getObjectItem part confJsonTelnetCommand with
        | none => exact .refused (by rw [firstFlaw_append, hflaw]; rfl)
        | some item =>
            have hfile := parseCommandFile_outcome env item
              (s := { s with telnetUsername := name, telnetPassword := pass }) hlist hrep
            refine (hfile.behind hflaw).imp ?_
            rintro s' ⟨list, mem, rfl⟩
            exact ⟨name, pass, list, mem, hset, rfl⟩
      · rw [hrun]
        exact .refused_append hflaw
      · rw [hrun]
        exact .halted_append hflaw

/-! ### The lists -/

/-- The next item of a list, and the verdict on it. -/
theorem itemDemands_drop (list : CJson) (onString : ℕ → Verdict) {i : ℕ}
    (hi : i < getArraySize list) :
    ∃ item, getArrayItem list i = some item ∧ (itemDemands list onString).drop i =
      needed (some item) (onString i) :: (itemDemands list onString).drop (i + 1) := by
  have hi' : i < (itemDemands list onString).length := by
    rw [itemDemands, List.length_mapIdx]
    exact hi
  have hi'' : i < list.child.length := hi
  refine ⟨list.child[i].2, ?_, ?_⟩
  · rw [getArrayItem, List.getElem?_eq_getElem hi'']
    rfl
  · rw [List.drop_eq_getElem_cons hi']
    simp only [itemDemands, List.getElem_mapIdx]

theorem itemDemands_drop_size (list : CJson) (onString : ℕ → Verdict) :
    (itemDemands list onString).drop (getArraySize list) = [] := by
  rw [List.drop_eq_nil_iff, itemDemands, List.length_mapIdx]
  exact le_rfl

section Loops

variable (env : ConfigEnv) (items : CJson)

/-- **The loop over the targets** follows the verdicts on them, and leaves `NULL` where `strdup` has
failed. -/
theorem targetLoop_outcome (left i : ℕ) {list : List (Option CText)}
    (hi : i + left = getArraySize items) (hlen : list.length = getArraySize items) :
    firstFlaw ((itemDemands items fun _ => .met).drop i) = none ∧
        (∃ list', targetLoop env items left i list = .ok list' ∧
          list'.length = getArraySize items ∧ ∀ k < getArraySize items,
            (list'[k]? = some none ↔
              if k < i then list[k]? = some none else env.target k = false)) ∨
      firstFlaw ((itemDemands items fun _ => .met).drop i) = some .unnoticed ∧
        ∃ e, targetLoop env items left i list = .error e := by
  induction left generalizing i list with
  | zero =>
      rw [Nat.add_zero] at hi
      rw [hi, itemDemands_drop_size]
      refine Or.inl ⟨rfl, list, rfl, hlen, fun k hk => ?_⟩
      rw [if_pos hk]
  | succ left ih =>
      obtain ⟨item, hitem, hdrop⟩ := itemDemands_drop items (fun _ => .met)
        (show i < getArraySize items by omega)
      rw [hdrop, targetLoop, hitem]
      dsimp only
      cases hvalue : item.valuestring with
      | none => exact Or.inr ⟨by simp [needed, hvalue], .nullArgument, rfl⟩
      | some text =>
          obtain ⟨copy, hcopy, hset⟩ := strdup_some (env.target i) text
          have hneeded : needed (some item) .met = .met := by simp [needed, hvalue]
          rw [hneeded, firstFlaw_met, hcopy, ok_bind_config]
          have hlen' : (list.set i copy).length = getArraySize items := by
            rw [List.length_set, hlen]
          have hi' : i + 1 + left = getArraySize items := by omega
          rcases ih (i + 1) hi' hlen' with ⟨hflaw, list', hrun, hlength, hget⟩ | ⟨hflaw, e, hrun⟩
          · refine Or.inl ⟨hflaw, list', hrun, hlength, fun k hk => ?_⟩
            rw [hget k hk, List.getElem?_set, hlen]
            rcases lt_trichotomy k i with hlt | rfl | hgt
            · rw [if_pos (by omega), if_neg (by omega), if_pos hlt]
            · rw [if_pos (by omega), if_pos rfl, if_pos hk, if_neg (lt_irrefl _),
                Option.some.injEq, ← Bool.not_eq_true, ← hset, not_not]
            · rw [if_neg (by omega), if_neg (by omega)]
          · exact Or.inr ⟨hflaw, e, hrun⟩

/-- **The loop over the files** follows the verdicts on them. -/
theorem fileLoop_outcome (left i : ℕ) {list : List (Option ℕ)}
    (hi : i + left = getArraySize items) (hlen : list.length = getArraySize items) :
    Follows ((itemDemands items fun i =>
        if (env.openFile i).isSome then .met else .refused).drop i)
      (fun list' => list'.length = getArraySize items ∧
        ∀ k < getArraySize items, list'[k]? = some none → k < i ∧ list[k]? = some none)
      (fileLoop env items left i list) := by
  induction left generalizing i list with
  | zero =>
      rw [Nat.add_zero] at hi
      rw [hi, itemDemands_drop_size]
      exact .loaded rfl ⟨hlen, fun k hk hnone => ⟨hk, hnone⟩⟩
  | succ left ih =>
      obtain ⟨item, hitem, hdrop⟩ := itemDemands_drop items
        (fun i => if (env.openFile i).isSome then .met else .refused)
        (show i < getArraySize items by omega)
      rw [hdrop, fileLoop, hitem]
      dsimp only
      cases hvalue : item.valuestring with
      | none => exact .halted (by simp [needed, hvalue])
      | some path =>
          dsimp only
          cases hopen : env.openFile i with
          | none => exact .refused (by simp [needed, hvalue])
          | some fd =>
              have hneeded : needed (some item)
                  (if (some fd).isSome = true then Verdict.met else .refused) = .met := by
                simp [needed, hvalue]
              have hlen' : (list.set i (some fd)).length = getArraySize items := by
                rw [List.length_set, hlen]
              have hi' : i + 1 + left = getArraySize items := by omega
              have hrest := (ih (i + 1) hi' hlen').behind
                (show firstFlaw [Verdict.met] = none from rfl)
              rw [hneeded]
              refine hrest.imp ?_
              rintro list' ⟨hlength, hget⟩
              refine ⟨hlength, fun k hk hnone => ?_⟩
              obtain ⟨hlt, hset⟩ := hget k hk hnone
              rw [List.getElem?_set, hlen] at hset
              rcases Nat.lt_succ_iff_lt_or_eq.1 hlt with hlt | rfl
              · rw [if_neg (by omega)] at hset
                exact ⟨hlt, hset⟩
              · rw [if_pos rfl, if_pos hk] at hset
                cases hset

end Loops

/-- **What `deployer_parse_deploy_targets` comes to.** -/
theorem deployerParseDeployTargets_outcome (env : ConfigEnv) (root : CJson) (s : Config) :
    Follows (listDemands env.mallocTargets (getObjectItem root confJsonDeployTargets) fun _ => .met)
      (fun s' => ∃ targets list, getObjectItem root confJsonDeployTargets = some targets ∧
        list.length = getArraySize targets ∧ list ≠ [] ∧
        (none ∉ list ↔ ∀ i < getArraySize targets, env.target i = true) ∧
        s' = { s with deployTargetCount := getArraySize targets, deployTargetList := some list })
      (deployerParseDeployTargets env root s) := by
  rw [deployerParseDeployTargets]
  cases getObjectItem root confJsonDeployTargets with
  | none => exact .refused rfl
  | some targets =>
      dsimp only [listDemands]
      by_cases hzero : getArraySize targets = 0
      · rw [if_pos hzero, if_pos (Or.inl hzero)]
        exact .refused rfl
      by_cases hmalloc : env.mallocTargets = false
      · rw [if_neg hzero, if_pos hmalloc, if_pos (Or.inr hmalloc)]
        exact .refused rfl
      rw [if_neg hzero, if_neg hmalloc, if_neg (not_or.2 ⟨hzero, hmalloc⟩)]
      have hloop := targetLoop_outcome env targets (getArraySize targets) 0
        (Nat.zero_add _) (List.length_replicate (a := (none : Option CText)))
      rw [List.drop_zero] at hloop
      rcases hloop with ⟨hflaw, list, hrun, hlen, hget⟩ | ⟨hflaw, e, hrun⟩
      · rw [hrun]
        refine .loaded hflaw ⟨targets, list, rfl, hlen, ?_, ?_, rfl⟩
        · rintro rfl
          exact hzero hlen.symm
        · rw [List.mem_iff_getElem?, not_exists]
          constructor
          · intro hall i hi
            have hnot := hall i
            rw [hget i hi, if_neg (Nat.not_lt_zero i)] at hnot
            exact Bool.eq_true_of_not_eq_false hnot
          · intro hall k hk
            have hlt : k < getArraySize targets := by
              rw [← hlen]
              exact (List.getElem?_eq_some_iff.1 hk).1
            rw [hget k hlt, if_neg (Nat.not_lt_zero k), hall k hlt] at hk
            cases hk
      · rw [hrun]
        exact .halted hflaw

/-- **What `deployer_parse_deploy_files` comes to.** -/
theorem deployerParseDeployFiles_outcome (env : ConfigEnv) (root : CJson) (s : Config) :
    Follows (listDemands env.mallocFiles (getObjectItem root confJsonDeployFiles)
        fun i => if (env.openFile i).isSome then .met else .refused)
      (fun s' => ∃ list, none ∉ list ∧
        s' = { s with deployFileCount := list.length, deployFileList := some list })
      (deployerParseDeployFiles env root s) := by
  rw [deployerParseDeployFiles]
  cases getObjectItem root confJsonDeployFiles with
  | none => exact .refused rfl
  | some files =>
      dsimp only [listDemands]
      by_cases hzero : getArraySize files = 0
      · rw [if_pos hzero, if_pos (Or.inl hzero)]
        exact .refused rfl
      by_cases hmalloc : env.mallocFiles = false
      · rw [if_neg hzero, if_pos hmalloc, if_pos (Or.inr hmalloc)]
        exact .refused rfl
      rw [if_neg hzero, if_neg hmalloc, if_neg (not_or.2 ⟨hzero, hmalloc⟩)]
      have hloop := fileLoop_outcome env files (getArraySize files) 0
        (Nat.zero_add _) (List.length_replicate (a := (none : Option ℕ)))
      rw [List.drop_zero] at hloop
      generalize fileLoop env files (getArraySize files) 0
        (List.replicate (getArraySize files) none) = result at hloop
      cases hloop with
      | loaded hflaw hlist =>
          obtain ⟨hlen, hget⟩ := hlist
          refine .loaded hflaw ⟨_, ?_, by rw [hlen]⟩
          rw [List.mem_iff_getElem?, not_exists]
          intro k hk
          have hlt : k < getArraySize files := by
            rw [← hlen]
            exact (List.getElem?_eq_some_iff.1 hk).1
          exact Nat.not_lt_zero k (hget k hlt hk).1
      | refused hflaw => exact .refused hflaw
      | halted hflaw => exact .halted hflaw

/-! ### The whole configuration -/

/-- **What `deployer_parse_config_file` comes to**: without a flaw it returns `RET_OK`, with a
configuration that is complete if no `strdup` has failed. -/
theorem deployerParseConfigFile_outcome (env : ConfigEnv) (root : CJson) (count : ℕ) :
    Follows (demands env root)
      (fun o => ∃ c : Config, o = some c ∧ (c.Complete ↔ StrdupsSucceed env root))
      (deployerParseConfigFile env root (configStart count)) := by
  rw [demands, ← List.append_nil (listDemands env.mallocFiles _ _)]
  refine (deployerParseFtp_outcome env root (configStart count)).parseSection ?_
  rintro s₁ ⟨name, pass, hftp, rfl⟩
  refine (deployerParseTelnet_outcome env root rfl (represents_create _ true)).parseSection ?_
  rintro s₂ ⟨name', pass', list, mem, htelnet, rfl⟩
  refine (deployerParseDeployTargets_outcome env root _).parseSection ?_
  rintro s₃ ⟨targets, targetList, htargets, hlen, hne, hnone, rfl⟩
  refine (deployerParseDeployFiles_outcome env root _).parseSection ?_
  rintro s₄ ⟨fileList, hfiles, rfl⟩
  refine .loaded rfl ⟨_, rfl, ?_⟩
  constructor
  · intro h
    refine ⟨⟨hftp.1.1 h.ftp.1, hftp.2.1 h.ftp.2⟩,
      ⟨htelnet.1.1 h.telnet.1, htelnet.2.1 h.telnet.2⟩, fun targets' htargets' => ?_⟩
    rw [htargets] at htargets'
    cases htargets'
    obtain ⟨list', hlist', -, -, hall⟩ := h.targets
    cases hlist'
    exact hnone.1 hall
  · rintro ⟨hftp', htelnet', hall⟩
    exact ⟨⟨hftp.1.2 hftp'.1, hftp.2.2 hftp'.2⟩, ⟨htelnet.1.2 htelnet'.1, htelnet.2.2 htelnet'.2⟩,
      ⟨targetList, rfl, hlen, hne, hnone.2 (hall targets htargets)⟩, fileList, rfl, rfl, hfiles⟩

/-- **Which configurations are loaded completely or refused**: those whose first flaw is one that
the parser refuses, and those without a flaw if no `strdup` fails. -/
theorem loadedOrRefused_iff (env : ConfigEnv) (root : CJson) (count : ℕ) :
    LoadedOrRefused env root (configStart count) ↔ FirstFlawRefused env root := by
  have houtcome := deployerParseConfigFile_outcome env root count
  rw [LoadedOrRefused, FirstFlawRefused]
  generalize deployerParseConfigFile env root (configStart count) = result at houtcome
  cases houtcome with
  | loaded hflaw hgood =>
      obtain ⟨c, rfl, hcomplete⟩ := hgood
      rw [hflaw, ← hcomplete]
      constructor
      · rintro ⟨r, hr, hall⟩
        cases hr
        obtain ⟨c', hc', hc⟩ := hall rfl
        cases hc'
        exact hc
      · intro hc
        exact ⟨_, rfl, fun _ => ⟨c, rfl, hc⟩⟩
  | refused hflaw =>
      rw [hflaw]
      exact iff_of_true ⟨_, rfl, fun hok => by cases hok⟩ trivial
  | halted hflaw =>
      rw [hflaw]
      refine iff_of_false ?_ not_false
      rintro ⟨r, hr, -⟩
      cases hr

/-- Calls that all succeed. -/
def configCallsSucceed : ConfigEnv where
  debugBuild := true
  ftp := ⟨true, true⟩
  telnet := ⟨true, true⟩
  commandFile := some []
  buffer := zeroCommandBuffer
  commands := allocsSucceed
  mallocTargets := true
  target := fun _ => true
  mallocFiles := true
  openFile := some

/-- `{"ftp": {"username": 1}}`. -/
def numberUsername : CJson :=
  .object [(some (literal "ftp"), .object [(some (literal "username"), .number)])]

/-- A user name that is a number is handed to `strdup`. -/
theorem numberUsername_unnoticed :
    ¬ LoadedOrRefused configCallsSucceed numberUsername (configStart 0) := by
  have hrun : deployerParseConfigFile configCallsSucceed numberUsername (configStart 0) =
      .error .nullArgument := rfl
  rintro ⟨r, hr, -⟩
  rw [hrun] at hr
  cases hr

end Wsn
