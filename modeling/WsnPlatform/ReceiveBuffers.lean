/-
**The buffers for what a server sends.**

`ftp_uploader_read_response` and `telnet_commander_recv_until_match` ask for as many bytes as their
array holds, and store a NUL behind those they get.  The string functions that are called then read
up to the first NUL.  The array still holds what was left by the messages before.

Main definitions:

* `MessageUse` — the bytes of a message, and where string functions read;
* `replyUse`, `repliesUse` — the use of the replies of an FTP server;
* `recvUses`, `recvMatchUses` — the use of the messages in the loop of the commander;
* `RepliesInside`, `RecvInside` — all stores and reads stay inside the message and its NUL;
* `receivedMessages` — the messages that the loop of the commander receives.

Main results:

* `replyUse_readResponse`, `recvUses_eq_error` — these are the stores of the calls;
* `repliesInside_iff`, `recvInside_iff` — when they stay inside;
* `receiveBuffers_inside_iff` — both.
-/

import WsnPlatform.FtpUploader
import WsnPlatform.TelnetCommander

set_option relaxedAutoImplicit false
set_option autoImplicit false

namespace Wsn

open FixedBuffer CScan PatternSearch

/-! ### The use of a message -/

/-- How many bytes a message has, and the places of the buffer that string functions read. -/
structure MessageUse where
  count : ℕ
  reads : List ℕ

/-- **Only bytes of the message are read**, and the NUL behind them. -/
def MessageUse.Inside (use : MessageUse) : Prop := ∀ i ∈ use.reads, i ≤ use.count

/-- The places that a string function reads: those up to the NUL. -/
def stringReads (string : CText) : List ℕ := List.range (string.length + 1)

theorem le_of_mem_stringReads {string : CText} {i k : ℕ} (h : string.length ≤ k)
    (hi : i ∈ stringReads string) : i ≤ k := by
  rw [stringReads, List.mem_range] at hi
  omega

/-- **A run of messages stays inside**: no store is behind the buffer, and no read is outside the
message that is read. -/
def UsesInside (run : Exec (List MessageUse)) : Prop :=
  ∃ uses, run = .ok uses ∧ ∀ use ∈ uses, use.Inside

theorem usesInside_nil : UsesInside (.ok []) :=
  ⟨[], rfl, fun _ hmem => absurd hmem List.not_mem_nil⟩

theorem not_usesInside_error (e : Fault) : ¬ UsesInside (.error e) := by
  intro h
  obtain ⟨uses, huses, -⟩ := h
  cases huses

/-- Messages that stay inside, in front of a run. -/
theorem usesInside_append {uses : List MessageUse} (h : ∀ use ∈ uses, use.Inside)
    (run : Exec (List MessageUse)) :
    UsesInside (run >>= fun rest => .ok (uses ++ rest)) ↔ UsesInside run := by
  constructor
  · intro hall
    obtain ⟨all, hall, hmem⟩ := hall
    obtain ⟨rest, hrest, hall⟩ := bind_eq_ok.1 hall
    cases hall
    exact ⟨rest, hrest, fun use huse => hmem use (List.mem_append_right uses huse)⟩
  · intro hrun
    obtain ⟨rest, hrest, hmem⟩ := hrun
    refine ⟨uses ++ rest, by rw [hrest, ok_bind], fun use huse => ?_⟩
    rcases List.mem_append.1 huse with huse | huse
    · exact h use huse
    · exact hmem use huse

/-! ### Replies of an FTP server -/

/-- `ftp_uploader_parse_reply_code`: `strlen`, and `atoi` of the buffer with a NUL at its fourth
place. -/
def parseReplyReads (response : List.Vector UInt8 respBufferSize) (string : CText) :
    Exec (List ℕ) :=
  if string.length < 4 then .ok (stringReads string)
  else do
    let front ← stored (copyAt response 3 [0])
    let code ← stored (cString front.toList)
    .ok (stringReads string ++ stringReads code)

/-- What `ftp_uploader_read_response` does to `response`. -/
def replyUse (reply : Reply) (s : FtpState) : Exec (List MessageUse × FtpState) :=
  match s.thiz.commandSocket, reply with
  | some _, .data bytes => do
      let response ← storeResponse s.thiz.response bytes.val
      let string ← stored (cString response.toList)
      let parsed ← parseReplyReads response string
      -- the first to read is `logger_printf`
      .ok ([⟨bytes.val.length, stringReads string ++ parsed⟩], s.withResponse response)
  | _, _ => .ok ([], s)

/-- The replies are read one after the other. -/
def repliesUse : List Reply → FtpState → Exec (List MessageUse)
  | [], _ => .ok []
  | reply :: replies, s => do
      let r ← replyUse reply s
      let uses ← repliesUse replies r.2
      .ok (r.1 ++ uses)

/-- **The replies stay inside the buffer**, and the string functions inside the replies. -/
def RepliesInside (replies : List Reply) (s : FtpState) : Prop := UsesInside (repliesUse replies s)

/-- How many bytes `read` returns. -/
def Reply.length : Reply → ℕ
  | .data bytes => bytes.val.length
  | _ => 0

/-- The parser of the code stays inside the text of the reply. -/
theorem parseReplyReads_le (response : List.Vector UInt8 respBufferSize) (string : CText) :
    ∃ reads, parseReplyReads response string = .ok reads ∧ ∀ i ∈ reads, i ≤ string.length := by
  have hself : ∀ i ∈ stringReads string, i ≤ string.length :=
    fun i hi => le_of_mem_stringReads le_rfl hi
  rw [parseReplyReads]
  by_cases hlen : string.length < 4
  · rw [if_pos hlen]
    exact ⟨_, rfl, hself⟩
  · have hroom : 3 + [(0 : UInt8)].length ≤ respBufferSize := by decide
    obtain ⟨front, hfront⟩ := copyAt_isSome response hroom
    have hnul : front.toList[3]? = some 0 := by
      have hlength : (response.toList.take 3).length = 3 := by
        rw [List.length_take, List.Vector.toList_length]
        rfl
      rw [toList_copyAt hfront, List.append_assoc, List.getElem?_append_right hlength.le, hlength]
      rfl
    obtain ⟨code, hcode, hle⟩ := cString_of_getElem? hnul
    rw [if_neg hlen, hfront, stored_some, ok_bind, hcode, stored_some, ok_bind]
    refine ⟨_, rfl, ?_⟩
    intro i hi
    rcases List.mem_append.1 hi with hi | hi
    · exact hself i hi
    · exact le_of_mem_stringReads (by omega) hi

/-- **What one reply does**: without a socket nothing; with one, it stays inside if it leaves room
for the NUL, and overruns the buffer if it does not. -/
theorem replyUse_cases (reply : Reply) (s : FtpState) :
    (s.thiz.commandSocket = none ∨ reply.length < respBufferSize) ∧
      (∃ uses response, replyUse reply s = .ok (uses, s.withResponse response) ∧
        ∀ use ∈ uses, use.Inside) ∨
    (s.thiz.commandSocket ≠ none ∧ respBufferSize ≤ reply.length) ∧
      replyUse reply s = .error .outOfBounds := by
  have hnothing : ∃ uses response, Except.ok (([] : List MessageUse), s) =
      (Except.ok (uses, s.withResponse response) : Exec _) ∧ ∀ use ∈ uses, use.Inside :=
    ⟨[], s.thiz.response, rfl, fun use hmem => absurd hmem List.not_mem_nil⟩
  rw [replyUse.eq_def]
  cases hsocket : s.thiz.commandSocket with
  | none => exact Or.inl ⟨Or.inl rfl, hnothing⟩
  | some socket =>
      cases reply with
      | failed => exact Or.inl ⟨Or.inr (by decide), hnothing⟩
      | closed => exact Or.inl ⟨Or.inr (by decide), hnothing⟩
      | data bytes =>
          by_cases hlen : bytes.val.length < respBufferSize
          · obtain ⟨response, hstore, hstring⟩ := storeResponse_eq s.thiz.response hlen
            obtain ⟨reads, hreads, hle⟩ := parseReplyReads_le response (textOf bytes.val)
            refine Or.inl ⟨Or.inr hlen,
              [⟨bytes.val.length, stringReads (textOf bytes.val) ++ reads⟩], response, ?_, ?_⟩
            · simp only [hstore, ok_bind, hstring, stored_some, hreads]
            · intro use hmem i hi
              rw [List.mem_singleton.1 hmem] at hi ⊢
              have htext := length_textOf_le bytes.val
              rcases List.mem_append.1 hi with hi | hi
              · exact le_of_mem_stringReads htext hi
              · exact (hle i hi).trans htext
          · have hfull := le_antisymm bytes.property.2 (not_lt.1 hlen)
            refine Or.inr ⟨⟨Option.some_ne_none socket, not_lt.1 hlen⟩, ?_⟩
            simp only [storeResponse_overrun s.thiz.response hfull, error_bind]

/-- The call stores what `replyUse` stores. -/
theorem replyUse_readResponse (reply : Reply) (s : FtpState) :
    (replyUse reply s).map Prod.snd = (readResponse reply s).map Prod.snd := by
  rw [replyUse.eq_def, readResponse.eq_def]
  cases s.thiz.commandSocket with
  | none => rfl
  | some socket =>
      cases reply with
      | failed => rfl
      | closed => rfl
      | data bytes =>
          dsimp only
          cases storeResponse s.thiz.response bytes.val with
          | error e => rfl
          | ok response =>
              rw [ok_bind, ok_bind]
              cases cString response.toList with
              | none => rfl
              | some string =>
                  obtain ⟨reads, hreads, -⟩ := parseReplyReads_le response string
                  rw [stored_some, ok_bind, ok_bind, hreads, ok_bind]
                  rfl

/-- **When the replies stay inside**: each of them leaves room for the NUL. -/
theorem repliesInside_iff (replies : List Reply) (s : FtpState) :
    RepliesInside replies s ↔
      s.thiz.commandSocket = none ∨ ∀ reply ∈ replies, reply.length < respBufferSize := by
  induction replies generalizing s with
  | nil =>
      constructor
      · exact fun _ => Or.inr fun reply hmem => absurd hmem List.not_mem_nil
      · exact fun _ => usesInside_nil
  | cons reply replies ih =>
      rw [RepliesInside, repliesUse, List.forall_mem_cons]
      rcases replyUse_cases reply s with ⟨hroom, uses, response, hrun, hinside⟩ | ⟨hfull, hrun⟩
      · have hrest := ih (s.withResponse response)
        have hsocket : (s.withResponse response).thiz.commandSocket = s.thiz.commandSocket := rfl
        rw [hsocket] at hrest
        rw [hrun, ok_bind, usesInside_append hinside]
        refine hrest.trans ?_
        constructor
        · intro h
          rcases h with hno | hlens
          · exact Or.inl hno
          · exact hroom.imp_right fun hlen => ⟨hlen, hlens⟩
        · exact fun h => h.imp_right And.right
      · rw [hrun, error_bind]
        constructor
        · exact fun h => absurd h (not_usesInside_error _)
        · intro h
          rcases h with hno | ⟨hlen, -⟩
          · exact absurd hno hfull.1
          · exact absurd hlen (not_lt.2 hfull.2)

/-! ### Messages to the commander -/

/-- `match`: `strstr` is called for the texts up to the first that it finds. -/
def matchReads (comparer : CText) : List CText → List ℕ
  | [] => []
  | desire :: desireList =>
      stringReads comparer ++
        if strstr comparer desire then [] else matchReads comparer desireList

/-- `logger_printf`, for a message that does not start with `TELNET_IAC`. -/
def loggedReads (bytes : List UInt8) (string : CText) : List ℕ :=
  if bytes.head? ≠ some telnetIac then stringReads string else []

/-- What the loop of `telnet_commander_recv_until_match` does to `recv_buffer`.  It goes on only if
`telnet_recv` returns. -/
def recvUses (telnet : TelnetField) (desireList : List CText) :
    List RecvResult → Wire → List.Vector UInt8 recvBufferSize → Exec (List MessageUse)
  | [], _, _ => .ok []
  | .failed :: _, _, _ => .ok []
  | .data bytes :: recvs, w, recvBuffer => do
      let recvBuffer ← storeMessage recvBuffer bytes.val
      match recvHandled telnet bytes.val (w.withRecvs recvs) with
      | .error _ => .ok [⟨bytes.val.length, []⟩]
      | .ok w => do
          let string ← stored (cString recvBuffer.toList)
          let use : MessageUse :=
            ⟨bytes.val.length, loggedReads bytes.val string ++ matchReads string desireList⟩
          if (matchText string desireList none).1 then .ok [use]
          else do
            let uses ← recvUses telnet desireList recvs w recvBuffer
            .ok ([use] ++ uses)

/-- What a call does to `recv_buffer`. -/
def recvMatchUses (thiz : TelnetCommander) (desireList : List CText) (w : Wire)
    (recvBuffer : List.Vector UInt8 recvBufferSize) : Exec (List MessageUse) :=
  match thiz.socket with
  | none => .ok []
  | some _ => recvUses thiz.telnet desireList w.recvs w recvBuffer

/-- **The messages of a call stay inside the buffer**, and the string functions inside the messages.
-/
def RecvInside (thiz : TelnetCommander) (desireList : List CText) (w : Wire)
    (recvBuffer : List.Vector UInt8 recvBufferSize) : Prop :=
  UsesInside (recvMatchUses thiz desireList w recvBuffer)

/-- The messages that the loop receives. -/
def receivedLoop (telnet : TelnetField) (patterns : List CText) :
    List RecvResult → Wire → List (List UInt8)
  | [], _ => []
  | .failed :: _, _ => []
  | .data bytes :: recvs, w =>
      bytes.val :: match recvHandled telnet bytes.val (w.withRecvs recvs) with
        | .error _ => []
        | .ok w =>
            if Shows patterns (textOf bytes.val) then [] else receivedLoop telnet patterns recvs w

/-- **The messages that a call receives.** -/
def receivedMessages (thiz : TelnetCommander) (patterns : List CText) (w : Wire) :
    List (List UInt8) :=
  match thiz.socket with
  | none => []
  | some _ => receivedLoop thiz.telnet patterns w.recvs w

theorem matchReads_le {comparer : CText} {desireList : List CText} {i : ℕ}
    (h : i ∈ matchReads comparer desireList) : i ≤ comparer.length := by
  induction desireList with
  | nil => exact absurd h List.not_mem_nil
  | cons desire desireList ih =>
      rw [matchReads] at h
      rcases List.mem_append.1 h with h | h
      · exact le_of_mem_stringReads le_rfl h
      · split at h
        · exact absurd h List.not_mem_nil
        · exact ih h

theorem loggedReads_le {bytes : List UInt8} {string : CText} {i : ℕ}
    (h : i ∈ loggedReads bytes string) : i ≤ string.length := by
  rw [loggedReads] at h
  split at h
  · exact le_of_mem_stringReads le_rfl h
  · exact absurd h List.not_mem_nil

theorem matchText_iff {comparer : CText} {desireList : List CText} {matchIndex : Option ℤ} :
    (matchText comparer desireList matchIndex).1 = true ↔ Shows desireList comparer := by
  constructor
  · intro h
    by_contra hno
    rw [matchText, matchLoop_of_not_shows hno] at h
    cases h
  · exact matchLoop_of_shows

/-- **What one message does**: it overruns the buffer; or it leaves room for the NUL, and is the
last, or the loop goes on. -/
theorem recvUses_data (telnet : TelnetField) (desireList : List CText)
    (bytes : { b : List UInt8 // b ≠ [] ∧ b.length ≤ recvBufferSize }) (recvs : List RecvResult)
    (w : Wire) (recvBuffer : List.Vector UInt8 recvBufferSize) :
    recvBufferSize ≤ bytes.val.length ∧
      recvUses telnet desireList (.data bytes :: recvs) w recvBuffer = .error .outOfBounds ∨
    bytes.val.length < recvBufferSize ∧ ∃ use : MessageUse, use.Inside ∧
      (receivedLoop telnet desireList (.data bytes :: recvs) w = [bytes.val] ∧
        recvUses telnet desireList (.data bytes :: recvs) w recvBuffer = .ok [use] ∨
      ∃ w' recvBuffer', receivedLoop telnet desireList (.data bytes :: recvs) w =
          bytes.val :: receivedLoop telnet desireList recvs w' ∧
        recvUses telnet desireList (.data bytes :: recvs) w recvBuffer = (do
          let uses ← recvUses telnet desireList recvs w' recvBuffer'
          .ok ([use] ++ uses))) := by
  rw [recvUses, receivedLoop.eq_def]
  by_cases hlen : bytes.val.length < recvBufferSize
  · obtain ⟨recvBuffer', hstore, -, hstring⟩ := storeMessage_eq recvBuffer hlen
    refine Or.inr ⟨hlen, ?_⟩
    rw [hstore, ok_bind]
    have hnone : MessageUse.Inside ⟨bytes.val.length, []⟩ := fun i hi => absurd hi List.not_mem_nil
    dsimp only
    cases recvHandled telnet bytes.val (w.withRecvs recvs) with
    | error e => exact ⟨_, hnone, Or.inl ⟨rfl, rfl⟩⟩
    | ok w' =>
        refine ⟨⟨bytes.val.length, loggedReads bytes.val (textOf bytes.val) ++
          matchReads (textOf bytes.val) desireList⟩, ?_, ?_⟩
        · intro i hi
          have htext := length_textOf_le bytes.val
          rcases List.mem_append.1 hi with hi | hi
          · exact (loggedReads_le hi).trans htext
          · exact (matchReads_le hi).trans htext
        · dsimp only
          rw [hstring, stored_some, ok_bind]
          by_cases hshows : Shows desireList (textOf bytes.val)
          · rw [if_pos hshows, if_pos (matchText_iff.2 hshows)]
            exact Or.inl ⟨rfl, rfl⟩
          · rw [if_neg hshows, if_neg fun h => hshows (matchText_iff.1 h)]
            exact Or.inr ⟨w', recvBuffer', rfl, rfl⟩
  · refine Or.inl ⟨not_lt.1 hlen, ?_⟩
    rw [storeMessage_overrun recvBuffer (not_lt.1 hlen), error_bind]

/-- The messages of the loop. -/
theorem recvUses_inside (telnet : TelnetField) (desireList : List CText) (recvs : List RecvResult)
    (w : Wire) (recvBuffer : List.Vector UInt8 recvBufferSize) :
    UsesInside (recvUses telnet desireList recvs w recvBuffer) ↔
      ∀ bytes ∈ receivedLoop telnet desireList recvs w, bytes.length < recvBufferSize := by
  induction recvs generalizing w recvBuffer with
  | nil => exact ⟨fun _ bytes hmem => absurd hmem List.not_mem_nil, fun _ => usesInside_nil⟩
  | cons r recvs ih =>
      cases r with
      | failed => exact ⟨fun _ bytes hmem => absurd hmem List.not_mem_nil, fun _ => usesInside_nil⟩
      | data bytes =>
          rcases recvUses_data telnet desireList bytes recvs w recvBuffer with ⟨hfull, hrun⟩ |
              ⟨hlen, use, hinside, ⟨hreceived, hrun⟩ | ⟨w', recvBuffer', hreceived, hrun⟩⟩
          · rw [hrun]
            constructor
            · exact fun h => absurd h (not_usesInside_error _)
            · exact fun h => absurd (h bytes.val List.mem_cons_self) (not_lt.2 hfull)
          · rw [hrun, hreceived, List.forall_mem_singleton]
            constructor
            · exact fun _ => hlen
            · exact fun _ => ⟨[use], rfl, List.forall_mem_singleton.2 hinside⟩
          · rw [hrun, hreceived, List.forall_mem_cons,
              usesInside_append (List.forall_mem_singleton.2 hinside)]
            refine (ih w' recvBuffer').trans ?_
            exact ⟨fun h => ⟨hlen, h⟩, And.right⟩

/-- **When the messages of a call stay inside**: each that is received leaves room for the NUL. -/
theorem recvInside_iff (thiz : TelnetCommander) (desireList : List CText) (w : Wire)
    (recvBuffer : List.Vector UInt8 recvBufferSize) :
    RecvInside thiz desireList w recvBuffer ↔
      ∀ bytes ∈ receivedMessages thiz desireList w, bytes.length < recvBufferSize := by
  rw [RecvInside, recvMatchUses, receivedMessages]
  cases thiz.socket with
  | none => exact ⟨fun _ bytes hmem => absurd hmem List.not_mem_nil, fun _ => usesInside_nil⟩
  | some socket => exact recvUses_inside thiz.telnet desireList w.recvs w recvBuffer

/-- Two runs of which neither stores behind the buffer. -/
theorem neither_overruns {uses : List MessageUse} {run : Talk ((Ret × Option ℤ) × Wire)}
    (h : ∀ w, run ≠ .error (.outOfBounds, w)) :
    (Except.ok uses : Exec (List MessageUse)) = .error .outOfBounds ↔
      ∃ w, run = .error (.outOfBounds, w) := by
  constructor
  · intro hok
    cases hok
  · intro hrun
    obtain ⟨w, hw⟩ := hrun
    exact absurd hw (h w)

/-- Handling a message stores nothing in the buffer. -/
theorem recvHandled_ne (telnet : TelnetField) (bytes : List UInt8) (w w' : Wire) :
    recvHandled telnet bytes w ≠ .error (.outOfBounds, w') := by
  cases telnet with
  | unassigned => intro h; cases h
  | null => intro h; cases h
  | handle n =>
      by_cases hterm : .ttype none ∈ (telnetRecv w.mem w.receiver bytes).2 → w.term ≠ none
      · have hevents := handleEvents_eq (w := { w with
          receiver := (telnetRecv w.mem w.receiver bytes).1 }) hterm
        rw [recvHandled, hevents]
        intro h
        cases h
      · rw [Classical.not_imp, not_not] at hterm
        obtain ⟨w'', hevents⟩ := handleEvents_null (w := { w with
          receiver := (telnetRecv w.mem w.receiver bytes).1 }) hterm.1 hterm.2
        rw [recvHandled, hevents]
        intro h
        cases h

/-- The loop stores behind its buffer when the loop of `recvUntilMatch` does. -/
theorem recvUses_eq_error (telnet : TelnetField) (desireList : List CText) (matchIndex : Option ℤ)
    (recvs : List RecvResult) (w : Wire) (recvBuffer : List.Vector UInt8 recvBufferSize) :
    recvUses telnet desireList recvs w recvBuffer = .error .outOfBounds ↔
      ∃ w', recvLoop telnet desireList matchIndex recvs w = .error (.outOfBounds, w') := by
  induction recvs generalizing w recvBuffer with
  | nil => exact neither_overruns fun w' h => by cases h
  | cons r recvs ih =>
      cases r with
      | failed => exact neither_overruns fun w' h => by cases h
      | data bytes =>
          rw [recvUses, recvLoop]
          by_cases hlen : bytes.val.length < recvBufferSize
          · obtain ⟨recvBuffer', hstore, -, hstring⟩ := storeMessage_eq recvBuffer hlen
            have hne := recvHandled_ne telnet bytes.val (w.withRecvs recvs)
            rw [hstore, ok_bind, recvBytes, if_neg hlen.ne]
            cases hhandled : recvHandled telnet bytes.val (w.withRecvs recvs) with
            | error e =>
                rw [hhandled] at hne
                exact neither_overruns fun w' h => hne w' (by cases h; rfl)
            | ok w' =>
                simp only [bind, Except.bind]
                rw [hstring, stored_some]
                dsimp only
                by_cases hshows : Shows desireList (textOf bytes.val)
                · rw [if_pos (matchText_iff.2 hshows), if_pos (matchText_iff.2 hshows)]
                  exact neither_overruns fun w'' h => by cases h
                · have hmatch : (matchText (textOf bytes.val) desireList matchIndex).2 =
                      matchIndex := by rw [matchText, matchLoop_of_not_shows hshows]
                  rw [if_neg fun h => hshows (matchText_iff.1 h),
                    if_neg fun h => hshows (matchText_iff.1 h), hmatch, ← ih w' recvBuffer']
                  cases recvUses telnet desireList recvs w' recvBuffer' with
                  | error e => exact Iff.rfl
                  | ok uses =>
                      constructor
                      · intro h; cases h
                      · intro h; cases h
          · have hfull := le_antisymm bytes.property.2 (not_lt.1 hlen)
            rw [storeMessage_overrun recvBuffer hfull.ge, error_bind, recvBytes, if_pos hfull]
            exact ⟨fun _ => ⟨_, rfl⟩, fun _ => rfl⟩

/-- **When the buffers are enough.**  The replies of an FTP server stay inside `response` exactly if
each of them has fewer than 100 bytes, or there is no socket to read them from; the messages to the
commander stay inside `recv_buffer` exactly if each that it receives has fewer than 1024. -/
theorem receiveBuffers_inside_iff (replies : List Reply) (s : FtpState) (thiz : TelnetCommander)
    (desireList : List CText) (w : Wire) (recvBuffer : List.Vector UInt8 recvBufferSize) :
    (RepliesInside replies s ↔
      s.thiz.commandSocket = none ∨ ∀ reply ∈ replies, reply.length < respBufferSize) ∧
    (RecvInside thiz desireList w recvBuffer ↔
      ∀ bytes ∈ receivedMessages thiz desireList w, bytes.length < recvBufferSize) :=
  ⟨repliesInside_iff replies s, recvInside_iff thiz desireList w recvBuffer⟩

/-- A reply of a hundred bytes, which one `read` returns. -/
def fullReply : Reply := .data ⟨List.replicate 100 97, by decide⟩

/-- A message of 1024 bytes, which one `recv` returns. -/
def fullMessage : RecvResult := .data ⟨List.replicate 1024 97, by
  rw [List.length_replicate]
  exact ⟨nofun, le_rfl⟩⟩

/-- Both have their NUL stored behind the buffer. -/
theorem fullBuffers_overrun :
    ¬ RepliesInside [fullReply] ftpConnected ∧
      ¬ RecvInside ⟨.handle 0, some 0⟩ [prompt] (newWire [fullMessage])
        (List.Vector.replicate recvBufferSize 0) := by
  constructor
  · intro h
    rcases (repliesInside_iff [fullReply] ftpConnected).1 h with hno | hlens
    · cases hno
    · exact absurd (hlens fullReply List.mem_cons_self) (by decide)
  · intro h
    have hlen := (recvInside_iff _ _ _ _).1 h (List.replicate 1024 97) List.mem_cons_self
    rw [List.length_replicate] at hlen
    exact absurd hlen (lt_irrefl 1024)

end Wsn
