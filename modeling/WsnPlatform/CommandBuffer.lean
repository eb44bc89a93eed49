/-
**The buffer of the command file.**

`deployer_parse_telnet` collects each line of the command file in a buffer of 100 bytes and never
compares its index with the size.  A store outside the buffer is a fault of the model, so the call
keeps to the buffer exactly when its loop does not fault, and that is told from the lengths of the
lines.

Main definitions:

* `FitsCommandBuffer` — the files whose lines fit the buffer;
* `CommandFileRead` — the call comes to the command file;
* `BufferKept` — every store is inside the buffer, and a line that is too long makes the call fail.

Main results:

* `bufferHolds_iff_fits` — the loop finds room exactly for lines that fit;
* `deployerParseTelnet_bufferKept_iff` — when the call keeps to the buffer.
-/

import WsnPlatform.ConfigJson

set_option relaxedAutoImplicit false
set_option autoImplicit false

namespace Wsn

open FixedBuffer CScan LineScan

/-! ### Lines that fit -/

/-- The text of a file, up to the byte that is taken for its end. -/
def readText (file : List UInt8) : List UInt8 := file.takeWhile (· ≠ eofByte)

/-- **The lines of a text fit the buffer**: each that ends with CR, LF and a NUL behind it, the last
one as it is. -/
def LinesFit (text : List UInt8) : Prop :=
  (∀ line ∈ (text.splitOn newline).dropLast, line.length ≤ 97) ∧
    ∀ line, (text.splitOn newline).getLast? = some line → line.length ≤ 100

/-- **The lines of a file fit the buffer.** -/
def FitsCommandBuffer (file : List UInt8) : Prop := LinesFit (readText file)

theorem linesFit_of_not_mem {line : List UInt8} (h : newline ∉ line) :
    LinesFit line ↔ line.length ≤ 100 := by
  rw [LinesFit, List.splitOn_eq_singleton h]
  simp

theorem linesFit_append_newline {line : List UInt8} (h : newline ∉ line) (text : List UInt8) :
    LinesFit (line ++ newline :: text) ↔ line.length ≤ 97 ∧ LinesFit text := by
  have hne := List.splitOn_ne_nil newline text
  rw [LinesFit, List.splitOn_append_cons_self_of_not_mem h, LinesFit,
    List.dropLast_cons_of_ne_nil hne, List.getLast?_cons_of_ne_nil hne, List.forall_mem_cons,
    and_assoc]

/-- The bytes of a line are stored one behind the other. -/
theorem bufferHolds_append {line : List UInt8} (hsep : newline ∉ line) (heof : eofByte ∉ line)
    {index : ℕ} (hindex : index ≤ commandBufferSize) (rest : List UInt8) :
    bufferHolds index (line ++ rest) = true ↔
      index + line.length ≤ commandBufferSize ∧ bufferHolds (index + line.length) rest = true := by
  induction line generalizing index with
  | nil => simp [hindex]
  | cons c line ih =>
      rw [List.mem_cons, not_or] at hsep heof
      rw [List.cons_append, bufferHolds, if_neg (Ne.symm heof.1), if_neg (Ne.symm hsep.1),
        Bool.and_eq_true, decide_eq_true_iff, List.length_cons]
      have hshift : index + (line.length + 1) = index + 1 + line.length := by omega
      rw [hshift]
      constructor
      · rintro ⟨hlt, hrest⟩
        exact (ih hsep.2 heof.2 hlt).1 hrest
      · rintro ⟨hle, hrest⟩
        have hlt : index < commandBufferSize := by omega
        exact ⟨hlt, (ih hsep.2 heof.2 hlt).2 ⟨hle, hrest⟩⟩

/-- Nothing is read behind the byte that is taken for the end. -/
theorem bufferHolds_readText (index : ℕ) (file : List UInt8) :
    bufferHolds index file = bufferHolds index (readText file) := by
  induction file generalizing index with
  | nil => rfl
  | cons c file ih =>
      by_cases hc : c = eofByte
      · have hnil : readText (c :: file) = [] := by simp [readText, hc]
        rw [hnil, bufferHolds, bufferHolds, if_pos hc]
      · have hcons : readText (c :: file) = c :: readText file := by simp [readText, hc]
        rw [hcons, bufferHolds, bufferHolds, if_neg hc, if_neg hc, ih, ih]

theorem eofByte_not_mem_readText (file : List UInt8) : eofByte ∉ readText file := by
  intro hmem
  have hne := List.mem_takeWhile_imp hmem
  simp at hne

/-- The loop over the text in front of the end finds room for its lines. -/
theorem bufferHolds_iff_linesFit {text : List UInt8} (heof : eofByte ∉ text) :
    bufferHolds 0 text = true ↔ LinesFit text := by
  induction text using induction_lines newline with
  | last line hsep =>
      have hline := bufferHolds_append hsep heof (Nat.zero_le commandBufferSize) []
      rw [List.append_nil] at hline
      rw [hline, linesFit_of_not_mem hsep, Nat.zero_add, bufferHolds, commandBufferSize]
      simp
  | cons line text hsep ih =>
      rw [List.mem_append, List.mem_cons, not_or, not_or] at heof
      have hne : newline ≠ eofByte := by decide
      rw [bufferHolds_append hsep heof.1 (Nat.zero_le _), linesFit_append_newline hsep,
        ← ih heof.2.2, Nat.zero_add, bufferHolds, if_neg hne, if_pos rfl, commandBufferSize]
      split_ifs with hempty
      · simp [hempty]
      · rw [Bool.and_eq_true, decide_eq_true_iff]
        constructor
        · rintro ⟨-, hroom, hrest⟩
          exact ⟨by omega, hrest⟩
        · rintro ⟨hlen, hrest⟩
          exact ⟨by omega, by omega, hrest⟩

/-- **There is room in the buffer exactly for lines that fit.** -/
theorem bufferHolds_iff_fits (file : List UInt8) :
    bufferHolds 0 file = true ↔ FitsCommandBuffer file := by
  rw [bufferHolds_readText]
  exact bufferHolds_iff_linesFit (eofByte_not_mem_readText file)

/-! ### The faults of the loop -/

/-- **The loop faults only by a store outside the buffer**, if the list is one. -/
theorem readCommands_fault {env : CommandAllocs} {file : List UInt8} {v : CommandReader} {l : DList}
    {cells : List (Addr × Option CText)} (hlist : v.list = some l)
    (hrep : l.Represents v.mem cells) {e : Fault} (h : readCommands env file v = .error e) :
    e = .outOfBounds := by
  induction file generalizing v l cells with
  | nil => cases h
  | cons c file ih =>
      rw [readCommands] at h
      by_cases heof : c = eofByte
      · rw [if_pos heof] at h
        cases h
      rw [if_neg heof] at h
      by_cases hc : c = newline
      · by_cases hindex : v.index = 0
        · rw [commandChar_empty env hc hindex, ok_bind] at h
          exact ih hlist hrep h
        rw [commandChar_line env hc hindex] at h
        by_cases hroom : v.index ≤ 97
        · obtain ⟨v₁, l₁, text, hrun, -, -, hlist₁, -, hcase⟩ :=
            addCommand_spec env hlist hrep rfl hroom
          rw [hrun, ok_bind] at h
          rcases hcase with ⟨a, -, -, hrep₁, -⟩ | ⟨-, rfl, hmem⟩
          · exact ih hlist₁ hrep₁ h
          · rw [← hmem] at hrep
            exact ih hlist₁ hrep h
        · have hcopy : copyAt v.buffer v.index [13, 10, 0] = none :=
            copyAt_eq_none.2 (by
              simp only [commandBufferSize, List.length_cons, List.length_nil]
              omega)
          rw [addCommand, hcopy] at h
          cases h
          rfl
      · rw [commandChar, if_neg hc] at h
        cases hcopy : copyAt v.buffer v.index [c] with
        | none =>
            rw [hcopy] at h
            cases h
            rfl
        | some buffer =>
            rw [hcopy] at h
            exact ih (v := { v with index := v.index + 1, buffer := buffer }) hlist hrep h

/-- **The loop and the lengths of the lines.** -/
theorem readCommands_fits (env : CommandAllocs) (file : List UInt8) {v : CommandReader} {l : DList}
    {cells : List (Addr × Option CText)} (hindex : v.index = 0) (hlist : v.list = some l)
    (hrep : l.Represents v.mem cells) :
    (FitsCommandBuffer file ∧ ∃ v', readCommands env file v = .ok v') ∨
      ¬ FitsCommandBuffer file ∧ readCommands env file v = .error .outOfBounds := by
  have hisOk := readCommands_isOk env file hlist hrep
  rw [hindex, bufferHolds_iff_fits] at hisOk
  cases hrun : readCommands env file v with
  | ok v' => exact Or.inl ⟨hisOk.1 ⟨v', hrun⟩, v', rfl⟩
  | error e =>
      have hfault := readCommands_fault hlist hrep hrun
      subst hfault
      refine Or.inr ⟨fun hfits => ?_, rfl⟩
      obtain ⟨v', hv'⟩ := hisOk.2 hfits
      rw [hrun] at hv'
      cases hv'

/-! ### The call -/

/-- **The call comes to the command file**: the section and its members are there, the user name and
the password are copied, and the file is opened. -/
def CommandFileRead (env : ConfigEnv) (root : CJson) (file : List UInt8) : Prop :=
  ∃ telnet login item path, getObjectItem root confJsonTelnet = some telnet ∧
    parseLogin env.debugBuild env.telnet telnet confJsonTelnetUsername confJsonTelnetPassword =
      .ok (some login) ∧
    getObjectItem telnet confJsonTelnetCommand = some item ∧ item.valuestring = some path ∧
    env.commandFile = some file

/-- A halt that is not one of the loop over the command file. -/
def ConfigHalt.BeforeLoop : ConfigHalt → Prop
  | .command _ => False
  | _ => True

theorem strdup_halt {succeeds : Bool} {text : Option CText} {e : ConfigHalt}
    (h : strdup succeeds text = .error e) : e.BeforeLoop := by
  cases text with
  | none => cases h; trivial
  | some text => cases h

theorem debugValuestring_halt {debugBuild : Bool} {item : Option CJson} {e : ConfigHalt}
    (h : debugValuestring debugBuild item = .error e) : e.BeforeLoop := by
  cases item with
  | none =>
      rw [debugValuestring] at h
      split at h <;> cases h
      trivial
  | some item => cases h

/-- A halt of two steps is one of the first or of the second. -/
theorem bind_halt {α β : Type} {x : Except ConfigHalt α} {f : α → Except ConfigHalt β}
    {e : ConfigHalt} (h : (x >>= f) = .error e) :
    x = .error e ∨ ∃ a, x = .ok a ∧ f a = .error e := by
  cases x with
  | error e' => cases h; exact Or.inl rfl
  | ok a => exact Or.inr ⟨a, rfl, h⟩

theorem parsePassword_halt {debugBuild succeeds : Bool} {item : Option CJson} {e : ConfigHalt}
    (h : parsePassword debugBuild succeeds item = .error e) : e.BeforeLoop := by
  have hrest : ∀ pass : Option CText,
      (debugValuestring debugBuild item >>= fun _ => Except.ok pass) = .error e →
        e.BeforeLoop := by
    intro pass h
    rcases bind_halt h with hdebug | ⟨u, -, h⟩
    · exact debugValuestring_halt hdebug
    · cases h
  cases item with
  | none =>
      rcases bind_halt h with hdup | ⟨pass, -, h⟩
      · exact strdup_halt hdup
      · exact hrest pass h
  | some item =>
      rcases bind_halt h with hdup | ⟨pass, -, h⟩
      · exact strdup_halt hdup
      · exact hrest pass h

theorem parseLogin_halt {debugBuild : Bool} {env : LoginAllocs} {part : CJson}
    {keyUsername keyPass : CText} {e : ConfigHalt}
    (h : parseLogin debugBuild env part keyUsername keyPass = .error e) : e.BeforeLoop := by
  unfold parseLogin at h
  cases hget : getObjectItem part keyUsername with
  | none =>
      rw [hget] at h
      cases h
  | some username =>
      rw [hget] at h
      rcases bind_halt h with hname | ⟨name, -, h⟩
      · exact strdup_halt hname
      rcases bind_halt h with hpass | ⟨pass, -, h⟩
      · exact parsePassword_halt hpass
      · cases h

/-- The variables of the loop in front of the command file. -/
def readerOf (env : ConfigEnv) (s : Config) : CommandReader :=
  ⟨0, env.buffer, s.mem, s.telnetCommandList, 0⟩

/-- **The call that comes to the command file** is its loop. -/
theorem deployerParseTelnet_of_read {env : ConfigEnv} {root : CJson} {file : List UInt8}
    (h : CommandFileRead env root file) (s : Config) :
    (∀ v, readCommands env.commands file (readerOf env s) = .ok v →
        ∃ s', deployerParseTelnet env root s = .ok (.ok, s')) ∧
      ∀ e, readCommands env.commands file (readerOf env s) = .error e →
        deployerParseTelnet env root s = .error (.command e) := by
  obtain ⟨telnet, ⟨name, pass⟩, item, path, htelnet, hlogin, hitem, hvalue, hfile⟩ := h
  have hcall : deployerParseTelnet env root s =
      parseCommandFile env item { s with telnetUsername := name, telnetPassword := pass } := by
    unfold deployerParseTelnet
    rw [htelnet]
    dsimp only
    rw [hlogin, ok_bind_config]
    dsimp only
    rw [hitem]
  rw [readerOf, hcall, parseCommandFile, hvalue]
  dsimp only
  rw [hfile]
  dsimp only
  constructor
  · intro v hv
    rw [hv]
    exact ⟨_, rfl⟩
  · intro e he
    rw [he]

/-- **The call that does not come to the command file** is refused, or halts before the loop. -/
theorem deployerParseTelnet_of_not_read {env : ConfigEnv} {root : CJson}
    (h : ∀ file, ¬ CommandFileRead env root file) (s : Config) :
    (∃ s', deployerParseTelnet env root s = .ok (.fail, s')) ∨
      ∃ e, deployerParseTelnet env root s = .error e ∧ e.BeforeLoop := by
  unfold deployerParseTelnet
  cases htelnet : getObjectItem root confJsonTelnet with
  | none => exact Or.inl ⟨s, rfl⟩
  | some telnet =>
      dsimp only
      cases hlogin : parseLogin env.debugBuild env.telnet telnet confJsonTelnetUsername
          confJsonTelnetPassword with
      | error e => exact Or.inr ⟨e, rfl, parseLogin_halt hlogin⟩
      | ok login =>
          rw [ok_bind_config]
          cases login with
          | none => exact Or.inl ⟨s, rfl⟩
          | some login =>
              dsimp only
              cases hitem : getObjectItem telnet confJsonTelnetCommand with
              | none => exact Or.inl ⟨_, rfl⟩
              | some item =>
                  dsimp only
                  rw [parseCommandFile]
                  cases hvalue : item.valuestring with
                  | none => exact Or.inr ⟨_, rfl, trivial⟩
                  | some path =>
                      dsimp only
                      cases hfile : env.commandFile with
                      | none => exact Or.inl ⟨_, rfl⟩
                      | some file =>
                          exact absurd ⟨telnet, login, item, path, htelnet, hlogin, hitem, hvalue,
                            hfile⟩ (h file)

/-- **The call keeps to its buffer**: no store is outside it, and a line that does not fit makes the
call fail. -/
def BufferKept (env : ConfigEnv) (root : CJson) (s : Config) : Prop :=
  deployerParseTelnet env root s ≠ .error (.command .outOfBounds) ∧
    ∀ file, CommandFileRead env root file → ¬ FitsCommandBuffer file →
      ∃ s', deployerParseTelnet env root s = .ok (.fail, s')

section Buffer

variable {env : ConfigEnv} {root : CJson} {s : Config} {l : DList}
  {cells : List (Addr × Option CText)} (hlist : s.telnetCommandList = some l)
  (hrep : l.Represents s.mem cells)
include hlist hrep

/-- **A line that does not fit** is stored all the same. -/
theorem deployerParseTelnet_overruns {file : List UInt8} (hread : CommandFileRead env root file)
    (hlong : ¬ FitsCommandBuffer file) :
    deployerParseTelnet env root s = .error (.command .outOfBounds) := by
  rcases readCommands_fits env.commands file (v := readerOf env s) rfl hlist hrep with
    ⟨hfits, -⟩ | ⟨-, hfault⟩
  · exact absurd hfits hlong
  · exact (deployerParseTelnet_of_read hread s).2 _ hfault

/-- **When the call keeps to its buffer**: the lines of the command file fit, if the call comes to
it. -/
theorem deployerParseTelnet_bufferKept_iff :
    BufferKept env root s ↔ ∀ file, CommandFileRead env root file → FitsCommandBuffer file := by
  constructor
  · rintro ⟨hstores, -⟩ file hread
    by_contra hlong
    exact hstores (deployerParseTelnet_overruns hlist hrep hread hlong)
  · intro hfits
    refine ⟨?_, fun file hread hlong => absurd (hfits file hread) hlong⟩
    by_cases hread : ∃ file, CommandFileRead env root file
    · obtain ⟨file, hread⟩ := hread
      rcases readCommands_fits env.commands file (v := readerOf env s) rfl hlist hrep with
        ⟨-, v, hv⟩ | ⟨hlong, -⟩
      · obtain ⟨s', hs'⟩ := (deployerParseTelnet_of_read hread s).1 v hv
        rw [hs']
        rintro ⟨⟩
      · exact absurd (hfits file hread) hlong
    · rcases deployerParseTelnet_of_not_read (not_exists.1 hread) s with
        ⟨s', hs'⟩ | ⟨e, he, hbefore⟩
      · rw [hs']
        rintro ⟨⟩
      · rw [he]
        rintro ⟨⟩
        exact hbefore

end Buffer

/-- `{"telnet": {"username": "root", "password": "", "command file": "commands"}}`. -/
def telnetSection : CJson :=
  .object [(some (literal "telnet"), .object [(some (literal "username"), .string (literal "root")),
    (some (literal "password"), .string []),
    (some (literal "command file"), .string (literal "commands"))])]

/-- The calls when the command file holds the given bytes. -/
def commandFileHolds (file : List UInt8) : ConfigEnv := { configCallsSucceed with
  commandFile := some file }

theorem telnetSection_read (file : List UInt8) :
    CommandFileRead (commandFileHolds file) telnetSection file :=
  ⟨_, _, _, _, rfl, rfl, rfl, rfl, rfl⟩

/-- A file with one short command. -/
theorem deployerParseTelnet_bufferKept_reboot :
    ((configStart 0).telnetCommandList = some (dlistCreate true) ∧
        (dlistCreate true).Represents (configStart 0).mem []) ∧
      BufferKept (commandFileHolds (literal "reboot\n")) telnetSection (configStart 0) := by
  refine ⟨⟨rfl, represents_create _ true⟩,
    (deployerParseTelnet_bufferKept_iff rfl (represents_create _ true)).2 ?_⟩
  rintro file ⟨-, -, -, -, -, -, -, -, hfile⟩
  cases hfile
  rw [← bufferHolds_iff_fits]
  decide

/-- **A line of 98 bytes**: the NUL behind it is stored at index 100. -/
theorem longLine_overruns :
    ¬ BufferKept (commandFileHolds (List.replicate 98 97 ++ [newline])) telnetSection
        (configStart 0) ∧
      deployerParseTelnet (commandFileHolds (List.replicate 98 97 ++ [newline])) telnetSection
        (configStart 0) = .error (.command .outOfBounds) := by
  have hlong : ¬ FitsCommandBuffer (List.replicate 98 97 ++ [newline]) := by
    rw [← bufferHolds_iff_fits]
    decide
  have hrun := deployerParseTelnet_overruns (s := configStart 0) rfl (represents_create _ true)
    (telnetSection_read (List.replicate 98 97 ++ [newline])) hlong
  exact ⟨fun h => h.1 hrun, hrun⟩

end Wsn
