/-
**The reprogrammer.**

`src/app/reprogrammer.c` receives a HEX file from the host and is to write it into the flash of a
node.  The command that announces the file is read with one call; the file follows and is copied to
`program.hex`; three stages then are to run the HEX parser on it.  The stages start with the guard
`return_val_if_fail(thiz != thiz, RET_INVALID_PARAMS)`, and `reprogrammer_process` ends with
`return RET_OK` on every path.

Main definitions:

* `reprogrammerReceiveHexFile` — copying the file from the socket;
* `nodeProgramSetup`, `nodeProgramDoing`, `nodeProgramEnd` — the stages;
* `reprogrammerProcess` — the whole call;
* `Reprogrammed` — what a success is to mean.

Main results:

* `receiveHexFileLoop_returns` — the file is received or not, in any case the call returns;
* `reprogrammerProcess_never_real` — every call returns `RET_OK`, and none runs the parser.
-/

import WsnPlatform.HexParser
import WsnPlatform.PacketTransferCalls

set_option relaxedAutoImplicit false
set_option autoImplicit false

namespace Wsn

open FixedBuffer

/-! ### Constants -/

/-- `REPROG_CMD_HEADER_LEN`. -/
def reprogCmdHeaderLen : ℕ := 11

/-- `REPROG_CMD_PREFIX_STR_INDEX`. -/
def reprogCmdPrefixStrIndex : ℕ := 1

/-- `REPROG_CMD_HEX_FILE_LEN_INDEX`. -/
def reprogCmdHexFileLenIndex : ℕ := 7

/-- `REPROG_CMD_HEX_FILE_LEN_WIDTH`. -/
def reprogCmdHexFileLenWidth : ℕ := 4

/-- `REPROG_CMD_PREFIX_STR`, `"PROGV3"`. -/
def reprogCmdPrefixStr : List UInt8 := [80, 82, 79, 71, 86, 51]

/-- `RECV_BUF_SIZE` of the reprogrammer. -/
def recvBufSize : ℕ := 4096

/-! ### State and environment -/

/-- `hex_fd`: no file, the `NULL` of a failed `fopen`, or an open file. -/
inductive HexFd
  | closed
  | null
  | opened
  deriving DecidableEq

/-- The part of `_ReprogStatus` that is used. -/
inductive ReprogStatus
  | success
  | recvCmdHexFailed
  deriving DecidableEq

/-- **The reprogrammer**, with the part of its surroundings that it acts on. -/
structure Reprogrammer where
  hexFd : HexFd
  serverSocket : ℤ
  /-- What the host has still to send. -/
  pending : List UInt8
  /-- The content of `program.hex`. -/
  file : List UInt8
  /-- The sockets that were closed. -/
  closed : List ℤ
  /-- The runs of `hex_parser_process_file`, each with its calls of the callback. -/
  parses : List (Ret × List LineData)
  deriving DecidableEq

/-- `reprogrammer_create`, when `malloc` succeeds. -/
def reprogrammerCreate : Reprogrammer := ⟨.closed, -1, [], [], [], []⟩

/-- The decisions of the environment during one call of `reprogrammer_process`. -/
structure ReprogEnv where
  header : ReadChoice
  /-- What `cmd_header` holds before the command is read. -/
  cmdHeader : List.Vector UInt8 reprogCmdHeaderLen
  fileOpens : Bool
  reads : ℕ → ReadChoice
  /-- How many bytes the writes to the file take; the source does not look at it. -/
  writes : ℕ → ℕ
  parserCreated : Bool
  /-- What `line_buf` of the parser holds before the first line. -/
  lineBuf : List.Vector UInt8 lineBufSize
  /-- `hex_line_data_cb`.  Its body is empty, so what it returns is up to the environment. -/
  hexLineDataCb : List LineData → LineData → Ret

/-! ### Receiving the file -/

/-- The loop of `reprogrammer_receive_hex_file`. -/
def receiveHexFileLoop : ℕ → Reprogrammer → ℤ → (ℕ → ReadChoice) → (ℕ → ℕ) →
    Exec (Ret × Reprogrammer)
  | 0, _, _, _, _ => .error .diverges
  | fuel + 1, thiz, hexFileLen, reads, writes =>
      if 0 < hexFileLen then
        match readSocket (reads 0) recvBufSize thiz.pending with
        | none => .ok (.fail, thiz)
        | some ([], pending) => .ok (.fail, { thiz with pending := pending })
        | some (b :: bs, pending) =>
            receiveHexFileLoop fuel
              { thiz with pending := pending, file := thiz.file ++ (b :: bs).take (writes 0) }
              (hexFileLen - (b :: bs).length) (fun i => reads (i + 1)) fun i => writes (i + 1)
      else .ok (.ok, thiz)

/-- **`reprogrammer_receive_hex_file`**. -/
def reprogrammerReceiveHexFile (thiz : Reprogrammer) (hexFileLen : ℤ) (env : ReprogEnv) :
    Exec (Ret × Reprogrammer) :=
  if env.fileOpens then
    receiveHexFileLoop (thiz.pending.length + 1) { thiz with hexFd := .opened, file := [] }
      hexFileLen env.reads env.writes
  else .ok (.fail, { thiz with hexFd := .null })

/-! ### The stages -/

/-- `reprogrammer_node_program_setup`. -/
def nodeProgramSetup (thiz : Reprogrammer) : Ret :=
  if ¬ thiz ≠ thiz then .invalidParams else .ok

/-- **`reprogrammer_node_program_doing`**, the stage that is to run the parser. -/
def nodeProgramDoing (thiz : Reprogrammer) (env : ReprogEnv) : Exec (Ret × Reprogrammer) :=
  if ¬ thiz ≠ thiz then .ok (.invalidParams, thiz)
  else if env.parserCreated then do
    let r ← hexParserProcessFile ⟨env.hexLineDataCb⟩ env.lineBuf thiz.file []
    .ok (.ok, { thiz with parses := thiz.parses ++ [r] })
  else .ok (.fail, thiz)

/-- `reprogrammer_node_program_end`. -/
def nodeProgramEnd (thiz : Reprogrammer) : Ret :=
  if ¬ thiz ≠ thiz then .invalidParams else .ok

/-! ### The call -/

/-- `ntohl` of four bytes. -/
def ntohl (field : List UInt8) : ℕ := field.foldl (fun n b => n * 256 + b.toNat) 0

/-- `reprogrammer_process` up to its label `exit`, with the status it has set by then. -/
def reprogrammerRun (thiz : Reprogrammer) (env : ReprogEnv) : Exec (ReprogStatus × Reprogrammer) :=
  match readSocket env.header reprogCmdHeaderLen thiz.pending with
  | none => .ok (.recvCmdHexFailed, thiz)
  | some (command, pending) => do
      let thiz := { thiz with pending := pending }
      let cmdHeader ← stored (copyAt env.cmdHeader 0 command)
      let hexFileLen := ntohl (slice cmdHeader reprogCmdHexFileLenIndex reprogCmdHexFileLenWidth)
      -- the NUL that ends the prefix
      let cmdHeader ← stored (copyAt cmdHeader reprogCmdHexFileLenIndex [0])
      if slice cmdHeader reprogCmdPrefixStrIndex reprogCmdPrefixStr.length ≠ reprogCmdPrefixStr then
        .ok (.recvCmdHexFailed, thiz)
      else do
        let r ← reprogrammerReceiveHexFile thiz (toInt hexFileLen) env
        if r.1 ≠ .ok then .ok (.recvCmdHexFailed, r.2)
        else do
          let _ := nodeProgramSetup r.2
          let done ← nodeProgramDoing r.2 env
          let _ := nodeProgramEnd done.2
          .ok (.success, done.2)

/-- What stands behind the label `exit`. -/
def reprogrammerExit (thiz : Reprogrammer) : Reprogrammer :=
  let thiz := if thiz.serverSocket ≠ -1 then
    { thiz with closed := thiz.closed ++ [thiz.serverSocket], serverSocket := -1 } else thiz
  if thiz.hexFd ≠ .closed then { thiz with hexFd := .closed } else thiz

/-- **`reprogrammer_process`** on a connection over which the host sends `stream`. -/
def reprogrammerProcess (thiz : Reprogrammer) (socket : ℤ) (stream : List UInt8)
    (env : ReprogEnv) : Exec (Ret × Reprogrammer) := do
  let r ← reprogrammerRun { thiz with serverSocket := socket, pending := stream } env
  .ok (.ok, reprogrammerExit r.2)

/-! ### What a call does -/

/-- What `read` delivers is taken from the stream. -/
theorem length_readSocket {choice : ReadChoice} {count : ℕ} {pending bytes left : List UInt8}
    (h : readSocket choice count pending = some (bytes, left)) :
    bytes.length + left.length = pending.length ∧ bytes.length ≤ count := by
  unfold readSocket at h
  split at h
  · cases h
  · cases h
    simp only [List.length_take, List.length_drop]
    omega

/-- **Receiving the file returns**, and runs no parser. -/
theorem receiveHexFileLoop_returns {fuel : ℕ} {thiz : Reprogrammer}
    (hfuel : thiz.pending.length < fuel) (hexFileLen : ℤ) (reads : ℕ → ReadChoice)
    (writes : ℕ → ℕ) :
    ∃ r, receiveHexFileLoop fuel thiz hexFileLen reads writes = .ok r ∧
      r.2.parses = thiz.parses := by
  induction fuel generalizing thiz hexFileLen reads writes with
  | zero => omega
  | succ fuel ih =>
      unfold receiveHexFileLoop
      split
      · split
        · exact ⟨_, rfl, rfl⟩
        · exact ⟨_, rfl, rfl⟩
        · next b bs pending hread =>
            -- every turn takes at least one byte from the stream
            have hlen := (length_readSocket hread).1
            rw [List.length_cons] at hlen
            exact @ih
              { thiz with pending := pending, file := thiz.file ++ (b :: bs).take (writes 0) }
              (by simp only; omega) (hexFileLen - (b :: bs).length) (fun i => reads (i + 1))
              fun i => writes (i + 1)
      · exact ⟨_, rfl, rfl⟩

theorem reprogrammerReceiveHexFile_returns (thiz : Reprogrammer) (hexFileLen : ℤ)
    (env : ReprogEnv) :
    ∃ r, reprogrammerReceiveHexFile thiz hexFileLen env = .ok r ∧ r.2.parses = thiz.parses := by
  unfold reprogrammerReceiveHexFile
  split
  · exact receiveHexFileLoop_returns (Nat.lt_succ_self _) hexFileLen env.reads env.writes
  · exact ⟨_, rfl, rfl⟩

/-- The guard of the stage never lets it start. -/
theorem nodeProgramDoing_eq (thiz : Reprogrammer) (env : ReprogEnv) :
    nodeProgramDoing thiz env = .ok (.invalidParams, thiz) := by
  rw [nodeProgramDoing, if_pos (not_not.2 rfl)]

theorem reprogrammerRun_returns (thiz : Reprogrammer) (env : ReprogEnv) :
    ∃ r, reprogrammerRun thiz env = .ok r ∧ r.2.parses = thiz.parses := by
  unfold reprogrammerRun
  split
  · exact ⟨_, rfl, rfl⟩
  · next command pending hread =>
      have hlen := (length_readSocket hread).2
      have hroom : 0 + command.length ≤ reprogCmdHeaderLen := by omega
      have hnul : reprogCmdHexFileLenIndex + [(0 : UInt8)].length ≤ reprogCmdHeaderLen := by decide
      obtain ⟨header, hheader⟩ := copyAt_isSome env.cmdHeader hroom
      obtain ⟨header', hheader'⟩ := copyAt_isSome header hnul
      simp only [hheader, hheader', stored_some, ok_bind]
      split
      · exact ⟨_, rfl, rfl⟩
      · obtain ⟨r, hr, hparses⟩ := reprogrammerReceiveHexFile_returns
          { thiz with pending := pending }
          (toInt (ntohl (slice header reprogCmdHexFileLenIndex reprogCmdHexFileLenWidth))) env
        simp only [hr, ok_bind]
        split
        · exact ⟨_, rfl, hparses⟩
        · simp only [nodeProgramDoing_eq, ok_bind]
          exact ⟨_, rfl, hparses⟩

theorem reprogrammerExit_parses (thiz : Reprogrammer) :
    (reprogrammerExit thiz).parses = thiz.parses := by
  simp only [reprogrammerExit]
  split_ifs <;> rfl

/-- **A real success**: the command was received whole and starts with the prefix, the declared
number of bytes was received behind it, and the parser was run on them. -/
def Reprogrammed (stream : List UInt8) (env : ReprogEnv) (before after : Reprogrammer) : Prop :=
  ∃ command body r,
    env.header.delivers reprogCmdHeaderLen stream = command ∧
      command.length = reprogCmdHeaderLen ∧
      (command.drop reprogCmdPrefixStrIndex).take reprogCmdPrefixStr.length = reprogCmdPrefixStr ∧
      body = (stream.drop reprogCmdHeaderLen).take
        (ntohl (command.drop reprogCmdHexFileLenIndex)) ∧
      body.length = ntohl (command.drop reprogCmdHexFileLenIndex) ∧
      hexParserProcessFile ⟨env.hexLineDataCb⟩ env.lineBuf body [] = .ok r ∧
      after.parses = before.parses ++ [r]

/-- **No success is real**: every call returns `RET_OK`, and none runs the parser. -/
theorem reprogrammerProcess_never_real (thiz : Reprogrammer) (socket : ℤ) (stream : List UInt8)
    (env : ReprogEnv) :
    ∃ thiz', reprogrammerProcess thiz socket stream env = .ok (.ok, thiz') ∧
      thiz'.parses = thiz.parses ∧ ¬ Reprogrammed stream env thiz thiz' := by
  obtain ⟨r, hrun, hparses⟩ :=
    reprogrammerRun_returns { thiz with serverSocket := socket, pending := stream } env
  have hsame : (reprogrammerExit r.2).parses = thiz.parses := by
    rw [reprogrammerExit_parses, hparses]
  refine ⟨reprogrammerExit r.2, ?_, hsame, ?_⟩
  · rw [reprogrammerProcess, hrun, ok_bind]
  · rintro ⟨_, _, r', -, -, -, -, -, -, hmore⟩
    rw [hsame] at hmore
    simp at hmore

/-- Everything goes well: the reads deliver what they are asked for, the file opens and takes all
bytes, the parser is created and its callback accepts. -/
def goodEnv : ReprogEnv where
  header := .bytes reprogCmdHeaderLen
  cmdHeader := .replicate _ 0
  fileOpens := true
  reads := fun _ => .bytes recvBufSize
  writes := fun _ => recvBufSize
  parserCreated := true
  lineBuf := .replicate _ 0
  hexLineDataCb := fun _ _ => .ok

/-- The command for node 1 with a file of twelve bytes, `:00000001FF` and a newline. -/
def endRecordStream : List UInt8 :=
  1 :: reprogCmdPrefixStr ++ [0, 0, 0, 12] ++
    [58, 48, 48, 48, 48, 48, 48, 48, 49, 70, 70, 10]

/-- The command that fails to arrive and the one that arrives with its file both return `RET_OK`. -/
theorem endRecordStream_unreal :
    reprogrammerProcess reprogrammerCreate 5 [] { goodEnv with header := .error } =
        .ok (.ok, { reprogrammerCreate with closed := [5] }) ∧
      reprogrammerProcess reprogrammerCreate 5 endRecordStream goodEnv =
        .ok (.ok, { reprogrammerCreate with
          closed := [5], file := endRecordStream.drop reprogCmdHeaderLen }) ∧
      ¬ Reprogrammed endRecordStream goodEnv reprogrammerCreate
        { reprogrammerCreate with
          closed := [5], file := endRecordStream.drop reprogCmdHeaderLen } := by
  refine ⟨rfl, rfl, ?_⟩
  rintro ⟨_, _, r, -, -, -, -, -, -, hmore⟩
  cases hmore

end Wsn
