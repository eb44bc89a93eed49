/-
**The FTP uploader.**

`src/deployer/ftp_uploader.c` puts files on a target over two sockets: commands and replies go over
the command socket, a file goes over a data socket, whose port the server tells in a reply.  Two
flags say which of the sockets is open.  A reply is whatever one `read` returns.

A call is given what the system calls that it makes return.  The sockets are numbers in a ledger.

Main definitions:

* `readResponse` — `ftp_uploader_read_response`, for one `read` of the command socket;
* `parsePassivePort` — the parser of the reply to `PASV`;
* `putLoop` — the loop that copies the file to the data socket;
* `ftpUploaderConnect`, `ftpUploaderLogin`, `ftpUploaderSetBinaryMode`, `ftpUploaderPut`,
  `ftpUploaderClose` — the calls of the source.

Main results:

* `readResponse_cases` — what a reply does.
-/

import WsnPlatform.PacketTransfer
import WsnPlatform.CText
import WsnPlatform.Ledger
import WsnPlatform.CScan

set_option relaxedAutoImplicit false
set_option autoImplicit false

namespace Wsn

open FixedBuffer CScan

/-! ### The state -/

/-- `RESP_BUFFER_SIZE`. -/
def respBufferSize : ℕ := 100

/-- `SEND_BUFFER_SIZE`. -/
def sendBufferSize : ℕ := 100

/-- `DATA_BUFFER_SIZE`. -/
def dataBufferSize : ℕ := 4096

/-- `PORT_BUFFER_SIZE`. -/
def portBufferSize : ℕ := 10

/-- `COMMAND_END_SIZE`. -/
def commandEndSize : ℕ := 10

/-- `IP_MAX_LENGTH`. -/
def ipMaxLength : ℕ := 16

/-- `PASSWORD_MAX_LENGTH`. -/
def passwordMaxLength : ℕ := 100

/-- `USER_NAME_MAX_LENGTH`. -/
def userNameMaxLength : ℕ := 32

/-- `struct _FtpUploader`.  A socket is told by its number in the ledger; `none` is `-1`. -/
structure FtpUploader where
  commandSocket : Option ℕ
  dataSocket : Option ℕ
  isConnected : Bool
  isTransfered : Bool
  response : List.Vector UInt8 respBufferSize

/-- The uploader and what its calls act on. -/
structure FtpState where
  thiz : FtpUploader
  sockets : Ledger
  /-- The texts written to the command socket. -/
  written : List CText
  /-- The bytes that the last data socket has accepted. -/
  accepted : List UInt8

/-- The fields that `ftp_uploader_create` leaves as `malloc` returns them. -/
structure FtpUnassigned where
  commandSocket : Option ℕ
  dataSocket : Option ℕ
  response : List.Vector UInt8 respBufferSize

/-- `ftp_uploader_create`, when its `malloc` succeeds. -/
def ftpUploaderCreate (junk : FtpUnassigned) : FtpUploader where
  commandSocket := junk.commandSocket
  dataSocket := junk.dataSocket
  isConnected := false
  isTransfered := false
  response := junk.response

/-- An uploader that is connected over its first socket. -/
def ftpConnected : FtpState where
  thiz :=
    { commandSocket := some 0, dataSocket := none, isConnected := true, isTransfered := false
      response := List.Vector.replicate respBufferSize 0 }
  sockets := ⟨1, []⟩
  written := []
  accepted := []

/-! ### Replies -/

/-- What one `read` of the command socket returns: `-1`, `0`, or some bytes, at most as many as the
buffer holds. -/
inductive Reply
  | failed
  | closed
  | data (bytes : { b : List UInt8 // b ≠ [] ∧ b.length ≤ respBufferSize })

/-- `atoi`, for a number that an `int` can hold. -/
def atoi (s : CText) : ℤ :=
  match s.dropWhile isSpace with
  | [] => 0
  | c :: t =>
      if c = 45 then -(decimal (t.takeWhile isDigit) : ℤ)
      else if c = 43 then decimal (t.takeWhile isDigit)
      else decimal ((c :: t).takeWhile isDigit)

/-- `ftp_uploader_parse_reply_code`. -/
def parseReplyCode (string : CText) : Option ℤ :=
  if string.length < 4 then none else some (atoi (string.take 3))

/-- The `switch` of `ftp_uploader_read_response`. -/
def replySwitch : ℤ → Ret
  | 1 => .ok
  | 2 => .ok
  | 3 => .ok
  | 4 => .fail
  | 5 => .fail
  | _ => .fail

/-- What `ftp_uploader_read_response` returns for the text of a reply. -/
def replyRet (string : CText) : Ret :=
  match parseReplyCode string with
  | none => .fail
  | some replyCode => replySwitch (replyCode.tdiv 100)

/-- The reply is put into `response`, and a NUL behind it. -/
def storeResponse (response : List.Vector UInt8 respBufferSize) (bytes : List UInt8) :
    Exec (List.Vector UInt8 respBufferSize) := do
  let response ← stored (copyAt response 0 bytes)
  stored (copyAt response bytes.length [0])

/-- `response` was filled. -/
def FtpState.withResponse (s : FtpState) (response : List.Vector UInt8 respBufferSize) : FtpState :=
  { s with thiz := { s.thiz with response := response } }

/-- **`ftp_uploader_read_response`**.  A `read` of the socket `-1` fails. -/
def readResponse (reply : Reply) (s : FtpState) : Exec (Ret × FtpState) :=
  match s.thiz.commandSocket, reply with
  | some _, .data bytes => do
      let response ← storeResponse s.thiz.response bytes.val
      let string ← stored (cString response.toList)
      .ok (replyRet string, s.withResponse response)
  | _, _ => .ok (.fail, s)

/-- A command is written to the command socket; what `write` returns is not looked at. -/
def FtpState.command (s : FtpState) (text : CText) : FtpState :=
  { s with written := s.written ++ [text] }

/-- What `snprintf` leaves in a buffer of the size. -/
def snprintf (size : ℕ) (text : CText) : CText := text.take (size - 1)

/-! ### The reply to `PASV` -/

/-- The states of `ftp_uploader_parse_passive_port`. -/
inductive ParseState
  | parseStart
  | ipSection
  | portSection
  | parseEnd
  deriving DecidableEq

/-- Its variables.  The characters in a buffer are those up to its index; `p1` and `p2` are `none`
until they are assigned. -/
structure PortParse where
  state : ParseState
  ip : CText
  delimsCount : ℕ
  portBuffer : CText
  p1 : Option ℤ
  p2 : Option ℤ
  deriving DecidableEq

/-- A character is stored at the index of a buffer of the size. -/
def storeChar (size : ℕ) (buffer : CText) (c : UInt8) : Exec CText :=
  if buffer.length < size then .ok (buffer ++ [c]) else .error .outOfBounds

/-- A character is stored, and the index is compared with the size: `RET_OOM` is told by `none`. -/
def storeOrOom (size : ℕ) (buffer : CText) (c : UInt8) : Exec (Option CText) := do
  let buffer ← storeChar size buffer c
  .ok (if buffer.length = size then none else some buffer)

/-- One turn of the loop; `none` is a `return RET_OOM`. -/
def portStep (c : UInt8) (v : PortParse) : Exec (Option PortParse) :=
  match v.state with
  | .parseStart => .ok (some (if c = 40 then { v with state := .ipSection } else v))
  | .ipSection =>
      if isDigit c then do
        let ip ← storeOrOom ipMaxLength v.ip c
        .ok (ip.map fun ip => { v with ip := ip })
      else if c = 44 then
        if v.delimsCount + 1 < 4 then do
          let ip ← storeOrOom ipMaxLength v.ip 46
          .ok (ip.map fun ip => { v with ip := ip, delimsCount := v.delimsCount + 1 })
        else do
          -- the NUL behind the address
          let _ ← storeChar ipMaxLength v.ip 0
          .ok (some { v with delimsCount := v.delimsCount + 1, state := .portSection })
      else .ok (some v)
  | .portSection =>
      if isDigit c then do
        let portBuffer ← storeOrOom portBufferSize v.portBuffer c
        .ok (portBuffer.map fun portBuffer => { v with portBuffer := portBuffer })
      else if c = 44 then do
        let _ ← storeChar portBufferSize v.portBuffer 0
        .ok (some { v with p1 := some (atoi v.portBuffer), portBuffer := [] })
      else if c = 41 then do
        let _ ← storeChar portBufferSize v.portBuffer 0
        .ok (some { v with p2 := some (atoi v.portBuffer), portBuffer := [], state := .parseEnd })
      else .ok (some v)
  | .parseEnd => .ok (some v)

/-- The loop over the characters in memory.  It ends at a NUL, but not before `PARSE_END`. -/
def portLoop : List UInt8 → PortParse → Exec (Option PortParse)
  | [], _ => .error .outOfBounds
  | c :: memory, v =>
      if c ≠ 0 ∨ v.state ≠ .parseEnd then do
        let next ← portStep c v
        match next with
        | none => .ok none
        | some v => portLoop memory v
      else .ok (some v)

/-- `*port`; `none` when `p1` was not assigned. -/
def passivePort (v : PortParse) : Exec (Option ℤ) :=
  match v.p1, v.p2 with
  | some p1, some p2 =>
      if p1 * 256 + p2 ≤ intMax then .ok (some (p1 * 256 + p2)) else .error .signedOverflow
  | _, _ => .ok none

/-- **`ftp_uploader_parse_passive_port`**: the address and the port, or `none` for `RET_OOM`. -/
def parsePassivePort (memory : List UInt8) : Exec (Option (CText × Option ℤ)) := do
  let v ← portLoop memory ⟨.parseStart, [], 0, [], none, none⟩
  match v with
  | none => .ok none
  | some v => do
      let port ← passivePort v
      .ok (some (v.ip, port))

/-! ### Copying the file -/

/-- What one turn of the copy loop gets from its `read` and its `write`: a `write` fails, or accepts
up to so many bytes. -/
structure CopyTurn where
  read : ReadChoice
  write : Option ℕ

/-- The variables of the loop: what is left of the file, `data_buf`, and the bytes accepted. -/
structure CopyState where
  file : List UInt8
  dataBuf : List UInt8
  accepted : List UInt8

/-- A `write` of the bytes at the front of the memory accepts some of them. -/
def CopyState.accept (s : CopyState) (memory : List UInt8) (count : ℕ) : CopyState :=
  { s with accepted := s.accepted ++ memory.take count }

/-- The loop of `ftp_uploader_put`.  When `read` fails, `write` is called for `(size_t)-1` bytes,
and takes what it can from `data_buf` and the memory behind it. -/
def putLoop (behind : List UInt8) : List CopyTurn → CopyState → Exec CopyState
  | [], _ => .error .diverges
  | turn :: turns, s =>
      match readSocket turn.read dataBufferSize s.file with
      | none =>
          match turn.write with
          | none => .ok s
          | some count => putLoop behind turns (s.accept (s.dataBuf ++ behind) count)
      | some ([], _) => .ok s
      | some (b :: bs, file) =>
          let s := { s with file := file, dataBuf := b :: bs ++ s.dataBuf.drop (b :: bs).length }
          match turn.write with
          | none => .ok s
          | some count => putLoop behind turns (s.accept (b :: bs) count)

/-! ### The calls -/

/-- The answers to the calls of `ftp_uploader_connect`. -/
structure FtpConnectEnv where
  socket : Bool
  connect : Bool
  banner : Reply

/-- A `socket` call: its result, and the ledger. -/
def openSocket (succeeds : Bool) (sockets : Ledger) : Option ℕ × Ledger :=
  if succeeds then (some sockets.issued, sockets.issue) else (none, sockets)

/-- A `close` call; one of the socket `-1` fails. -/
def closeSocket (socket : Option ℕ) (sockets : Ledger) : Ledger :=
  match socket with
  | none => sockets
  | some socket => sockets.release socket

/-- What `socket` has returned is put into `command_socket`. -/
def FtpState.withCommandSocket (s : FtpState) (opened : Option ℕ × Ledger) : FtpState :=
  { s with thiz := { s.thiz with commandSocket := opened.1 }, sockets := opened.2 }

/-- `is_connected` is set. -/
def FtpState.connected (s : FtpState) : FtpState :=
  { s with thiz := { s.thiz with isConnected := true } }

/-- **`ftp_uploader_connect`**.  A `connect` of the socket `-1` fails. -/
def ftpUploaderConnect (ipAddress : Option CText) (env : FtpConnectEnv) (s : FtpState) :
    Exec (Ret × FtpState) :=
  if ipAddress = none then .ok (.invalidParams, s)
  else
    let s := s.withCommandSocket (openSocket env.socket s.sockets)
    if env.socket = false ∨ env.connect = false then .ok (.fail, s)
    else do
      let r ← readResponse env.banner s.connected
      .ok (if r.1 ≠ .ok then .fail else .ok, r.2)

/-- The answers to the calls of `ftp_uploader_login`. -/
structure FtpLoginEnv where
  malloc : Bool
  user : Reply
  pass : Reply

/-- `strlen`, put into an `int`. -/
def strlenInt (s : CText) : ℤ := toInt (s.length % 2 ^ 32)

/-- **`ftp_uploader_login`**. -/
def ftpUploaderLogin (userName pass : Option CText) (env : FtpLoginEnv) (s : FtpState) :
    Exec (Ret × FtpState) :=
  match userName, pass with
  | some userName, some pass =>
      if userNameMaxLength < strlenInt userName then .ok (.fail, s)
      else if passwordMaxLength < strlenInt pass then .ok (.fail, s)
      else
        let sendBufSize := max (strlenInt userName) (strlenInt pass) + commandEndSize
        -- a negative size is, as a `size_t`, more than `malloc` gives
        if env.malloc = false ∨ sendBufSize < 0 then .ok (.fail, s)
        else do
          let user := snprintf sendBufSize.toNat (literal "USER " ++ userName ++ crlf)
          let r ← readResponse env.user (s.command user)
          if r.1 ≠ .ok then .ok (.fail, r.2)
          else do
            let text := snprintf sendBufSize.toNat (literal "PASS " ++ pass ++ crlf)
            let r ← readResponse env.pass (r.2.command text)
            .ok (if r.1 ≠ .ok then .fail else .ok, r.2)
  | _, _ => .ok (.invalidParams, s)

/-- **`ftp_uploader_set_binary_mode`**. -/
def ftpUploaderSetBinaryMode (reply : Reply) (s : FtpState) : Exec (Ret × FtpState) := do
  let r ← readResponse reply (s.command (literal "TYPE I\r\n"))
  .ok (if r.1 ≠ .ok then .fail else .ok, r.2)

/-- The answers to the calls of `ftp_uploader_put`, and the memory that the copy loop can send. -/
structure FtpPutEnv where
  pasv : Reply
  socket : Bool
  connect : Bool
  stor : Reply
  turns : List CopyTurn
  /-- `data_buf` before the first `read`. -/
  dataBuf : List UInt8
  behind : List UInt8
  final : Reply

/-- The data socket is closed behind the loop. -/
def FtpState.copied (s : FtpState) (c : CopyState) : FtpState :=
  { s with
    thiz := { s.thiz with isTransfered := false }
    sockets := closeSocket s.thiz.dataSocket s.sockets
    accepted := c.accepted }

/-- `ftp_uploader_put` behind the reply to `STOR`. -/
def putFile (file : List UInt8) (env : FtpPutEnv) (s : FtpState) : Exec (Ret × FtpState) := do
  let c ← putLoop env.behind env.turns ⟨file, env.dataBuf, []⟩
  let r ← readResponse env.final (s.copied c)
  .ok (if r.1 ≠ .ok then .fail else .ok, r.2)

/-- What `socket` has returned is put into `data_socket`. -/
def FtpState.withDataSocket (s : FtpState) (opened : Option ℕ × Ledger) : FtpState :=
  { s with
    thiz := { s.thiz with dataSocket := opened.1 }
    sockets := opened.2
    accepted := [] }

/-- `is_transfered` is set. -/
def FtpState.transfering (s : FtpState) : FtpState :=
  { s with thiz := { s.thiz with isTransfered := true } }

/-- `ftp_uploader_put` behind the parser of the port. -/
def putConnection (name : CText) (file : List UInt8) (env : FtpPutEnv) (s : FtpState) :
    Exec (Ret × FtpState) :=
  let s := s.withDataSocket (openSocket env.socket s.sockets)
  if env.socket = false ∨ env.connect = false then .ok (.fail, s)
  else do
    let stor := snprintf sendBufferSize (literal "STOR " ++ name ++ crlf)
    let r ← readResponse env.stor (s.transfering.command stor)
    if r.1 ≠ .ok then .ok (.fail, r.2) else putFile file env r.2

/-- `ftp_uploader_put` behind the reply to `PASV`. -/
def putPort (name : CText) (file : List UInt8) (env : FtpPutEnv) (s : FtpState) :
    Exec (Ret × FtpState) := do
  let port ← parsePassivePort s.thiz.response.toList
  match port with
  | none => .ok (.oom, s)
  | some _ => putConnection name file env s

/-- **`ftp_uploader_put`** of a file that is read from its start. -/
def ftpUploaderPut (fileName : Option CText) (file : List UInt8) (env : FtpPutEnv) (s : FtpState) :
    Exec (Ret × FtpState) :=
  match fileName with
  | none => .ok (.invalidParams, s)
  | some name => do
      let r ← readResponse env.pasv (s.command (literal "PASV\r\n"))
      if r.1 ≠ .ok then .ok (.fail, r.2)
      else putPort name file env r.2

/-- What `ftp_uploader_close` does to the sockets and the flags. -/
def closeSockets (s : FtpState) : FtpState :=
  let s : FtpState :=
    if s.thiz.isTransfered then
      { s with
        thiz := { s.thiz with isConnected := false }
        sockets := closeSocket s.thiz.dataSocket s.sockets }
    else s
  if s.thiz.isConnected then
    { s with
      thiz := { s.thiz with isConnected := false }
      sockets := closeSocket s.thiz.commandSocket s.sockets }
  else s

/-- **`ftp_uploader_close`**. -/
def ftpUploaderClose (reply : Reply) (s : FtpState) : Exec (Ret × FtpState) := do
  let r ← readResponse reply (s.command (literal "QUIT\r\n"))
  let s := closeSockets r.2
  .ok (.ok, { s with thiz := { s.thiz with response := List.Vector.replicate respBufferSize 0 } })

/-! ### What a reply does -/

/-- A message is put into an array, and a NUL behind it. -/
def storeMessage {n : ℕ} (buffer : List.Vector UInt8 n) (bytes : List UInt8) :
    Exec (List.Vector UInt8 n) := do
  let buffer ← stored (copyAt buffer 0 bytes)
  stored (copyAt buffer bytes.length [0])

/-- A message that leaves room for the NUL is the string in the array. -/
theorem storeMessage_eq {n : ℕ} (buffer : List.Vector UInt8 n) {bytes : List UInt8}
    (h : bytes.length < n) :
    ∃ buffer', storeMessage buffer bytes = .ok buffer' ∧
      buffer'.toList.take (bytes.length + 1) = bytes ++ [0] ∧
        cString buffer'.toList = some (textOf bytes) := by
  obtain ⟨b₁, hb₁, hfront₁⟩ := copyAt_behind (b := buffer) bytes
    (List.take_zero (l := buffer.toList)) (by rw [Nat.zero_add]; exact h.le)
  rw [Nat.zero_add, List.nil_append] at hfront₁
  obtain ⟨b₂, hb₂, hfront₂⟩ := copyAt_behind [0] hfront₁ h
  refine ⟨b₂, by rw [storeMessage, hb₁, stored_some, ok_bind, hb₂, stored_some], hfront₂, ?_⟩
  rw [← List.take_append_drop (bytes.length + 1) b₂.toList]
  have htake : b₂.toList.take (bytes.length + 1) = bytes ++ [0] := hfront₂
  rw [htake, List.append_assoc]
  exact cString_textOf bytes _

/-- A message that does not has its NUL stored behind the array. -/
theorem storeMessage_overrun {n : ℕ} (buffer : List.Vector UInt8 n) {bytes : List UInt8}
    (h : n ≤ bytes.length) : storeMessage buffer bytes = .error .outOfBounds := by
  rw [storeMessage]
  cases hb : copyAt buffer 0 bytes with
  | none => rw [stored_none, error_bind]
  | some b₁ =>
      have hnone : copyAt b₁ bytes.length [0] = none := by
        rw [copyAt_eq_none]
        exact Nat.lt_succ_of_le h
      rw [stored_some, ok_bind, hnone, stored_none]

/-- A reply that leaves room for the NUL is the string in the buffer. -/
theorem storeResponse_eq (response : List.Vector UInt8 respBufferSize) {bytes : List UInt8}
    (h : bytes.length < respBufferSize) :
    ∃ response', storeResponse response bytes = .ok response' ∧
      cString response'.toList = some (textOf bytes) := by
  obtain ⟨response', hstore, -, hstring⟩ := storeMessage_eq response h
  exact ⟨response', hstore, hstring⟩

/-- A reply that fills the buffer has its NUL stored behind it. -/
theorem storeResponse_overrun (response : List.Vector UInt8 respBufferSize) {bytes : List UInt8}
    (h : bytes.length = respBufferSize) :
    storeResponse response bytes = .error .outOfBounds :=
  storeMessage_overrun response h.ge

/-- What `ftp_uploader_read_response` returns for a reply on an open socket; `none` when it stores
the NUL behind the buffer. -/
def judge : Reply → Option Ret
  | .failed => some .fail
  | .closed => some .fail
  | .data bytes =>
      if bytes.val.length < respBufferSize then some (replyRet (textOf bytes.val)) else none

/-- What a reply leaves in `response`. -/
def storeReply (response : List.Vector UInt8 respBufferSize) :
    Reply → Exec (List.Vector UInt8 respBufferSize)
  | .data bytes => storeResponse response bytes.val
  | _ => .ok response

/-- **What a reply does**: without a socket the call fails; with one the reply is judged, and
changes `response` alone. -/
theorem readResponse_cases (reply : Reply) (s : FtpState) :
    s.thiz.commandSocket = none ∧ readResponse reply s = .ok (.fail, s) ∨
    s.thiz.commandSocket ≠ none ∧ judge reply = none ∧
      readResponse reply s = .error .outOfBounds ∨
    s.thiz.commandSocket ≠ none ∧ ∃ ret response, judge reply = some ret ∧
      storeReply s.thiz.response reply = .ok response ∧
      readResponse reply s = .ok (ret, s.withResponse response) := by
  cases hsocket : s.thiz.commandSocket with
  | none => exact Or.inl ⟨rfl, by simp [readResponse, hsocket]⟩
  | some socket =>
      refine Or.inr ?_
      cases reply with
      | failed =>
          exact Or.inr ⟨Option.some_ne_none socket, .fail, s.thiz.response, rfl, rfl,
            by simp [readResponse, FtpState.withResponse]⟩
      | closed =>
          exact Or.inr ⟨Option.some_ne_none socket, .fail, s.thiz.response, rfl, rfl,
            by simp [readResponse, FtpState.withResponse]⟩
      | data bytes =>
          by_cases hlen : bytes.val.length < respBufferSize
          · obtain ⟨response, hstore, hstring⟩ := storeResponse_eq s.thiz.response hlen
            refine Or.inr ⟨Option.some_ne_none socket, replyRet (textOf bytes.val), response, ?_,
              hstore, ?_⟩
            · rw [judge, if_pos hlen]
            · simp only [readResponse, hsocket, hstore, ok_bind, hstring, stored_some]
          · have hfull := le_antisymm bytes.property.2 (not_lt.1 hlen)
            refine Or.inl ⟨Option.some_ne_none socket, ?_, ?_⟩
            · rw [judge, if_neg hlen]
            · simp only [readResponse, hsocket, storeResponse_overrun s.thiz.response hfull,
                error_bind]

theorem readResponse_of_judge {reply : Reply} {s : FtpState} (hsocket : s.thiz.commandSocket ≠ none)
    {ret : Ret} (h : judge reply = some ret) :
    ∃ response, storeReply s.thiz.response reply = .ok response ∧
      readResponse reply s = .ok (ret, s.withResponse response) := by
  rcases readResponse_cases reply s with ⟨hnone, -⟩ | ⟨-, hjudge, -⟩ |
      ⟨-, ret', response, hjudge, hstore, hrun⟩
  · exact absurd hnone hsocket
  · rw [h] at hjudge; cases hjudge
  · rw [h] at hjudge
    cases hjudge
    exact ⟨response, hstore, hrun⟩

/-- Reading a reply changes `response` alone. -/
theorem readResponse_frame {reply : Reply} {s : FtpState} {r : Ret × FtpState}
    (h : readResponse reply s = .ok r) : ∃ response, r.2 = s.withResponse response := by
  rcases readResponse_cases reply s with ⟨-, hrun⟩ | ⟨-, -, hrun⟩ | ⟨-, _, response, -, -, hrun⟩
  · rw [hrun] at h; cases h
    exact ⟨s.thiz.response, rfl⟩
  · rw [hrun] at h; cases h
  · rw [hrun] at h; cases h
    exact ⟨response, rfl⟩

/-- A positive answer was read from a socket, and judged positive. -/
theorem readResponse_positive {reply : Reply} {s : FtpState} {r : Ret × FtpState}
    (h : readResponse reply s = .ok r) (hret : r.1 = .ok) :
    s.thiz.commandSocket ≠ none ∧ judge reply = some .ok ∧
      ∃ response, storeReply s.thiz.response reply = .ok response ∧ r.2 = s.withResponse response := by
  rcases readResponse_cases reply s with ⟨-, hrun⟩ | ⟨-, -, hrun⟩ |
      ⟨hsocket, ret, response, hjudge, hstore, hrun⟩
  · rw [hrun] at h; cases h; cases hret
  · rw [hrun] at h; cases h
  · rw [hrun] at h; cases h
    have hok : ret = .ok := hret
    rw [hok] at hjudge
    exact ⟨hsocket, hjudge, response, hstore, rfl⟩

theorem replySwitch_cases (q : ℤ) : replySwitch q = .ok ∨ replySwitch q = .fail := by
  unfold replySwitch
  split
  · exact Or.inl rfl
  · exact Or.inl rfl
  · exact Or.inl rfl
  · exact Or.inr rfl
  · exact Or.inr rfl
  · exact Or.inr rfl

/-- A reply is judged positive or negative. -/
theorem judge_cases {reply : Reply} {ret : Ret} (h : judge reply = some ret) :
    ret = .ok ∨ ret = .fail := by
  cases reply with
  | failed => cases h; exact Or.inr rfl
  | closed => cases h; exact Or.inr rfl
  | data bytes =>
      rw [judge] at h
      split_ifs at h with hlen
      cases h
      rw [replyRet]
      split
      · exact Or.inr rfl
      · exact replySwitch_cases _

/-- A negative answer that was read from a socket was judged negative. -/
theorem readResponse_negative {reply : Reply} {s : FtpState} {r : Ret × FtpState}
    (hsocket : s.thiz.commandSocket ≠ none) (h : readResponse reply s = .ok r)
    (hret : r.1 ≠ .ok) : judge reply = some .fail := by
  rcases readResponse_cases reply s with ⟨hnone, -⟩ | ⟨-, -, hrun⟩ |
      ⟨-, ret, response, hjudge, -, hrun⟩
  · exact absurd hnone hsocket
  · rw [hrun] at h; cases h
  · rw [hrun] at h; cases h
    rw [hjudge, (judge_cases hjudge).resolve_left hret]

end Wsn
