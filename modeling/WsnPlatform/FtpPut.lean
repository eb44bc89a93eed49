/-
**Uploading a file.**

The loop of `ftp_uploader_put` hands every piece of the file to one `write`, does not look at how
much of it was accepted, and takes a failed `read` for a piece of `(size_t)-1` bytes.  Whether the
call succeeds is up to the reply of the server alone.

Main definitions:

* `turnEffect` — what one turn of the loop does;
* `CompleteUpload` — a successful upload has sent the file;
* `Passive`, `Answered` — the replies and connections with which the call comes to open a data
  socket, and with which it succeeds, if its loop ends;
* `Whole` — the turns that send all of the file, and nothing else.

Main results:

* `putLoop_whole`, `putLoop_short` — what the loop sends;
* `ftpUploaderPut_ok` — when the call succeeds;
* `ftpUploaderPut_complete` — an upload that succeeds is complete if its turns are `Whole`, and
  apart from bytes that are no part of the file, only then.
-/

import WsnPlatform.FtpUploader

set_option relaxedAutoImplicit false
set_option autoImplicit false

namespace Wsn

/-! ### The turns of the loop -/

/-- **What one turn of the loop does**, when `file` is left to read. -/
inductive TurnEffect
  /-- `read` has returned `0`. -/
  | atEnd
  /-- `write` has failed. -/
  | breaks
  /-- A piece of the file is handed to `write`, which accepts up to `count` bytes. -/
  | copies (bytes : List UInt8) (count : ℕ) (rest : List UInt8)
  /-- `read` has failed, and `write` accepts up to `count` bytes. -/
  | strays (count : ℕ)

def turnEffect (turn : CopyTurn) (file : List UInt8) : TurnEffect :=
  match readSocket turn.read dataBufferSize file with
  | none =>
      match turn.write with
      | none => .breaks
      | some count => .strays count
  | some ([], _) => .atEnd
  | some (b :: bs, rest) =>
      match turn.write with
      | none => .breaks
      | some count => .copies (b :: bs) count rest

/-- The loop ends with one of the turns. -/
def LoopEnds : List CopyTurn → List UInt8 → Prop
  | [], _ => False
  | turn :: turns, file =>
      match turnEffect turn file with
      | .atEnd => True
      | .breaks => True
      | .copies _ _ rest => LoopEnds turns rest
      | .strays _ => LoopEnds turns file

/-- **The turns send all of the file and nothing else**: every piece is accepted whole, nothing is
accepted when `read` has failed, and the loop does not end before the file does. -/
def Whole : List CopyTurn → List UInt8 → Prop
  | [], _ => True
  | turn :: turns, file =>
      match turnEffect turn file with
      | .atEnd => True
      | .breaks => file = []
      | .copies bytes count rest => bytes.length ≤ count ∧ Whole turns rest
      | .strays count => count = 0 ∧ Whole turns file

/-- Nothing is accepted when `read` has failed. -/
def NothingStray : List CopyTurn → List UInt8 → Prop
  | [], _ => True
  | turn :: turns, file =>
      match turnEffect turn file with
      | .atEnd => True
      | .breaks => True
      | .copies _ _ rest => NothingStray turns rest
      | .strays count => count = 0 ∧ NothingStray turns file

/-- What a `read` of the file returns comes from its front, and is empty at its end alone. -/
theorem readSocket_file {choice : ReadChoice} {file bytes rest : List UInt8}
    (h : readSocket choice dataBufferSize file = some (bytes, rest)) :
    file = bytes ++ rest ∧ (bytes = [] → file = []) := by
  cases choice with
  | error => cases h
  | bytes k =>
      obtain ⟨n, hn⟩ : ∃ n, min dataBufferSize (max 1 k) = n + 1 :=
        ⟨min dataBufferSize (max 1 k) - 1, by simp only [dataBufferSize]; omega⟩
      rw [readSocket, hn] at h
      cases h
      refine ⟨(List.take_append_drop (n + 1) file).symm, fun hnil => ?_⟩
      cases file with
      | nil => rfl
      | cons b file => cases hnil

/-- **A turn of the loop**, by its effect. -/
theorem putLoop_turn (behind : List UInt8) (turn : CopyTurn) (turns : List CopyTurn)
    (s : CopyState) :
    turnEffect turn s.file = .atEnd ∧ s.file = [] ∧ putLoop behind (turn :: turns) s = .ok s ∨
    turnEffect turn s.file = .breaks ∧
      (∃ s', putLoop behind (turn :: turns) s = .ok s' ∧ s'.accepted = s.accepted) ∨
    (∃ bytes count rest dataBuf, turnEffect turn s.file = .copies bytes count rest ∧
      s.file = bytes ++ rest ∧ putLoop behind (turn :: turns) s =
        putLoop behind turns ⟨rest, dataBuf, s.accepted ++ bytes.take count⟩) ∨
    ∃ count, turnEffect turn s.file = .strays count ∧ putLoop behind (turn :: turns) s =
      putLoop behind turns ⟨s.file, s.dataBuf, s.accepted ++ (s.dataBuf ++ behind).take count⟩ := by
  rw [putLoop, turnEffect]
  cases hread : readSocket turn.read dataBufferSize s.file with
  | none =>
      cases turn.write with
      | none => exact Or.inr (Or.inl ⟨rfl, s, rfl, rfl⟩)
      | some count => exact Or.inr (Or.inr (Or.inr ⟨count, rfl, rfl⟩))
  | some r =>
      obtain ⟨bytes, rest⟩ := r
      obtain ⟨hfile, hnil⟩ := readSocket_file hread
      cases bytes with
      | nil => exact Or.inl ⟨rfl, hnil rfl, rfl⟩
      | cons b bs =>
          cases turn.write with
          | none => exact Or.inr (Or.inl ⟨rfl, _, rfl, rfl⟩)
          | some count =>
              exact Or.inr (Or.inr (Or.inl ⟨b :: bs, count, rest, _, rfl, hfile, rfl⟩))

/-- **Turns that send all of the file** leave exactly the file behind what was accepted before. -/
theorem putLoop_whole {behind : List UInt8} {turns : List CopyTurn} {s c : CopyState}
    (h : Whole turns s.file) (hrun : putLoop behind turns s = .ok c) :
    c.accepted = s.accepted ++ s.file := by
  induction turns generalizing s with
  | nil => cases hrun
  | cons turn turns ih =>
      rw [Whole] at h
      rcases putLoop_turn behind turn turns s with ⟨heff, hnil, hrun'⟩ | ⟨heff, s', hrun', hs'⟩ |
          ⟨bytes, count, rest, dataBuf, heff, hfile, hrun'⟩ | ⟨count, heff, hrun'⟩
      · rw [hrun'] at hrun
        cases hrun
        rw [hnil, List.append_nil]
      · rw [heff] at h
        have hnil : s.file = [] := h
        rw [hrun'] at hrun
        cases hrun
        rw [hs', hnil, List.append_nil]
      · rw [heff] at h
        obtain ⟨hcount, hrest⟩ : bytes.length ≤ count ∧ Whole turns rest := h
        rw [hrun'] at hrun
        rw [ih hrest hrun, List.take_of_length_le hcount, hfile, List.append_assoc]
      · rw [heff] at h
        obtain ⟨hcount, hrest⟩ : count = 0 ∧ Whole turns s.file := h
        rw [hrun', hcount, List.take_zero, List.append_nil] at hrun
        exact ih (s := s) hrest hrun

/-- **Turns that do not** leave less than the file, if nothing else is accepted. -/
theorem putLoop_short {behind : List UInt8} {turns : List CopyTurn} {s c : CopyState}
    (hstray : NothingStray turns s.file) (hrun : putLoop behind turns s = .ok c) :
    c.accepted.length ≤ s.accepted.length + s.file.length ∧
      (¬ Whole turns s.file → c.accepted.length < s.accepted.length + s.file.length) := by
  induction turns generalizing s with
  | nil => cases hrun
  | cons turn turns ih =>
      rw [NothingStray] at hstray
      rw [Whole]
      rcases putLoop_turn behind turn turns s with ⟨heff, -, hrun'⟩ | ⟨heff, s', hrun', hs'⟩ |
          ⟨bytes, count, rest, dataBuf, heff, hfile, hrun'⟩ | ⟨count, heff, hrun'⟩
      · rw [heff]
        rw [hrun'] at hrun
        cases hrun
        exact ⟨Nat.le_add_right _ _, fun hno => absurd trivial hno⟩
      · rw [heff]
        rw [hrun'] at hrun
        cases hrun
        rw [hs']
        refine ⟨Nat.le_add_right _ _, fun hno => ?_⟩
        have hpos : 0 < s.file.length := List.length_pos_iff.2 hno
        omega
      · rw [heff] at hstray ⊢
        have hrest : NothingStray turns rest := hstray
        rw [hrun'] at hrun
        obtain ⟨hle, hlt⟩ := ih hrest hrun
        simp only [List.length_append, List.length_take] at hle hlt
        rw [hfile, List.length_append]
        refine ⟨by omega, fun hno => ?_⟩
        by_cases hcount : bytes.length ≤ count
        · have hshort := hlt fun hwhole => hno ⟨hcount, hwhole⟩
          omega
        · omega
      · rw [heff] at hstray ⊢
        obtain ⟨hcount, hrest⟩ : count = 0 ∧ NothingStray turns s.file := hstray
        rw [hrun', hcount, List.take_zero, List.append_nil] at hrun
        obtain ⟨hle, hlt⟩ := ih (s := s) hrest hrun
        exact ⟨hle, fun hno => hlt fun hwhole => hno ⟨hcount, hwhole⟩⟩

/-- The loop ends with one of the turns, or runs on. -/
theorem putLoop_ends (behind : List UInt8) (turns : List CopyTurn) (s : CopyState) :
    LoopEnds turns s.file ↔ ∃ c, putLoop behind turns s = .ok c := by
  induction turns generalizing s with
  | nil =>
      constructor
      · intro h
        exact absurd h not_false
      · rintro ⟨c, hc⟩
        cases hc
  | cons turn turns ih =>
      rw [LoopEnds]
      rcases putLoop_turn behind turn turns s with ⟨heff, -, hrun⟩ | ⟨heff, s', hrun, -⟩ |
          ⟨bytes, count, rest, dataBuf, heff, -, hrun⟩ | ⟨count, heff, hrun⟩
      · rw [heff, hrun]
        exact ⟨fun _ => ⟨s, rfl⟩, fun _ => trivial⟩
      · rw [heff, hrun]
        exact ⟨fun _ => ⟨s', rfl⟩, fun _ => trivial⟩
      · rw [heff, hrun]
        exact ih ⟨rest, dataBuf, s.accepted ++ bytes.take count⟩
      · rw [heff, hrun]
        exact ih ⟨s.file, s.dataBuf, s.accepted ++ (s.dataBuf ++ behind).take count⟩

/-! ### When the call succeeds -/

/-- **The call comes to open a data socket**: the reply to `PASV` is positive and tells a port. -/
structure Passive (fileName : Option CText) (env : FtpPutEnv) (s : FtpState) : Prop where
  named : fileName ≠ none
  commandSocket : s.thiz.commandSocket ≠ none
  pasv : judge env.pasv = some .ok
  port : ∃ response port, storeReply s.thiz.response env.pasv = .ok response ∧
    parsePassivePort response.toList = .ok (some port)

/-- **The replies and connections with which the call succeeds**, if its loop ends. -/
structure Answered (fileName : Option CText) (env : FtpPutEnv) (s : FtpState) : Prop
    extends Passive fileName env s where
  socket : env.socket = true
  connect : env.connect = true
  stor : judge env.stor = some .ok
  final : judge env.final = some .ok

/-- **A call that goes on behind a positive reply** succeeds when the reply is positive and the rest
of the call succeeds. -/
theorem reply_then_ok (reply : Reply) (s : FtpState) (rest : FtpState → Exec (Ret × FtpState))
    (P : FtpState → Prop) :
    (∃ r, (readResponse reply s >>= fun r =>
        if r.1 ≠ .ok then .ok (.fail, r.2) else rest r.2) = .ok r ∧ r.1 = .ok ∧ P r.2) ↔
      s.thiz.commandSocket ≠ none ∧ judge reply = some .ok ∧
        ∃ response, storeReply s.thiz.response reply = .ok response ∧
          ∃ r, rest (s.withResponse response) = .ok r ∧ r.1 = .ok ∧ P r.2 := by
  constructor
  · rintro ⟨r, hr, hret, hP⟩
    obtain ⟨r', hread, hr'⟩ := bind_eq_ok.1 hr
    by_cases hpos : r'.1 = .ok
    · obtain ⟨hsocket, hjudge, response, hstore, hframe⟩ := readResponse_positive hread hpos
      rw [if_neg (not_not.2 hpos), hframe] at hr'
      exact ⟨hsocket, hjudge, response, hstore, r, hr', hret, hP⟩
    · rw [if_pos hpos] at hr'
      cases hr'
      cases hret
  · rintro ⟨hsocket, hjudge, response, hstore, r, hr, hret, hP⟩
    obtain ⟨response', hstore', hread⟩ := readResponse_of_judge hsocket hjudge
    rw [hstore] at hstore'
    cases hstore'
    exact ⟨r, by rw [hread]; exact hr, hret, hP⟩

/-- Behind the reply to `STOR`. -/
theorem putFile_ok (file : List UInt8) (env : FtpPutEnv) (s : FtpState) (bytes : List UInt8) :
    (∃ r, putFile file env s = .ok r ∧ r.1 = .ok ∧ r.2.accepted = bytes) ↔
      s.thiz.commandSocket ≠ none ∧ judge env.final = some .ok ∧
        ∃ c, putLoop env.behind env.turns ⟨file, env.dataBuf, []⟩ = .ok c ∧ c.accepted = bytes := by
  rw [putFile]
  cases hloop : putLoop env.behind env.turns ⟨file, env.dataBuf, []⟩ with
  | error e =>
      constructor
      · rintro ⟨r, hr, -⟩
        cases hr
      · rintro ⟨-, -, c, hc, -⟩
        cases hc
  | ok c =>
      rw [ok_bind]
      constructor
      · rintro ⟨r, hr, hret, hbytes⟩
        obtain ⟨r', hread, hr'⟩ := bind_eq_ok.1 hr
        cases hr'
        have hret' : r'.1 = .ok := by
          by_contra hne
          rw [if_pos hne] at hret
          cases hret
        obtain ⟨hsocket, hjudge, response, -, hframe⟩ := readResponse_positive hread hret'
        rw [hframe] at hbytes
        exact ⟨hsocket, hjudge, c, rfl, hbytes⟩
      · rintro ⟨hsocket, hjudge, c', hc', hbytes⟩
        cases hc'
        obtain ⟨response, -, hread⟩ := readResponse_of_judge
          (s := s.copied c) hsocket hjudge
        exact ⟨_, by rw [hread, ok_bind], rfl, hbytes⟩

/-- Behind the parser of the port. -/
theorem putConnection_ok (name : CText) (file : List UInt8) (env : FtpPutEnv) (s : FtpState)
    (bytes : List UInt8) :
    (∃ r, putConnection name file env s = .ok r ∧ r.1 = .ok ∧ r.2.accepted = bytes) ↔
      (env.socket = true ∧ env.connect = true) ∧ s.thiz.commandSocket ≠ none ∧
        judge env.stor = some .ok ∧ judge env.final = some .ok ∧
          ∃ c, putLoop env.behind env.turns ⟨file, env.dataBuf, []⟩ = .ok c ∧
            c.accepted = bytes := by
  rw [putConnection]
  by_cases hopen : env.socket = false ∨ env.connect = false
  · rw [if_pos hopen]
    constructor
    · rintro ⟨r, hr, hret, -⟩
      cases hr
      cases hret
    · rintro ⟨⟨hsocket, hconnect⟩, -⟩
      rcases hopen with hno | hno
      · rw [hsocket] at hno; cases hno
      · rw [hconnect] at hno; cases hno
  · rw [if_neg hopen]
    have hopened : env.socket = true ∧ env.connect = true := by simpa using hopen
    refine (reply_then_ok env.stor _ _ fun s => s.accepted = bytes).trans ?_
    constructor
    · rintro ⟨hsocket, hstor, response, hstore, hrest⟩
      obtain ⟨-, hfinal, hloop⟩ := (putFile_ok _ _ _ bytes).1 hrest
      exact ⟨hopened, hsocket, hstor, hfinal, hloop⟩
    · rintro ⟨-, hsocket, hstor, hfinal, hloop⟩
      obtain ⟨response, hstore, -⟩ := readResponse_of_judge (s := s) hsocket hstor
      exact ⟨hsocket, hstor, response, hstore, (putFile_ok _ _ _ bytes).2 ⟨hsocket, hfinal, hloop⟩⟩

/-- **The call succeeds** when it is answered and its loop ends, and has sent what the loop sends.
-/
theorem ftpUploaderPut_ok (fileName : Option CText) (file : List UInt8) (env : FtpPutEnv)
    (s : FtpState) (bytes : List UInt8) :
    (∃ r, ftpUploaderPut fileName file env s = .ok r ∧ r.1 = .ok ∧ r.2.accepted = bytes) ↔
      Answered fileName env s ∧
        ∃ c, putLoop env.behind env.turns ⟨file, env.dataBuf, []⟩ = .ok c ∧
          c.accepted = bytes := by
  cases fileName with
  | none =>
      constructor
      · rintro ⟨r, hr, hret, -⟩
        cases hr
        cases hret
      · rintro ⟨hans, -⟩
        exact absurd rfl hans.named
  | some name =>
      rw [ftpUploaderPut]
      refine (reply_then_ok env.pasv _ (putPort name file env)
        fun s => s.accepted = bytes).trans ?_
      constructor
      · rintro ⟨hsocket, hpasv, response, hstore, r, hr, hret, hbytes⟩
        obtain ⟨port, hport, hr⟩ := bind_eq_ok.1 hr
        cases port with
        | none =>
            cases hr
            cases hret
        | some port =>
            obtain ⟨⟨hopen, hconnect⟩, -, hstor, hfinal, hloop⟩ :=
              (putConnection_ok _ _ _ _ bytes).1 ⟨r, hr, hret, hbytes⟩
            exact ⟨⟨⟨Option.some_ne_none name, hsocket, hpasv, ⟨response, port, hstore, hport⟩⟩,
              hopen, hconnect, hstor, hfinal⟩, hloop⟩
      · rintro ⟨hans, hloop⟩
        obtain ⟨response, port, hstore, hport⟩ := hans.port
        obtain ⟨r, hr, hret, hbytes⟩ := (putConnection_ok name file env
          ((s.command (literal "PASV\r\n")).withResponse response) bytes).2
          ⟨⟨hans.socket, hans.connect⟩, hans.commandSocket, hans.stor, hans.final, hloop⟩
        refine ⟨hans.commandSocket, hans.pasv, response, hstore, r, ?_, hret, hbytes⟩
        have hport' : parsePassivePort
            ((s.command (literal "PASV\r\n")).withResponse response).thiz.response.toList =
              .ok (some port) := hport
        rw [putPort, hport', ok_bind]
        exact hr

/-! ### Complete uploads -/

/-- **A successful upload has sent the file**: all of it, in order, and nothing else. -/
def CompleteUpload (fileName : Option CText) (file : List UInt8) (env : FtpPutEnv) (s : FtpState) :
    Prop :=
  ∀ r, ftpUploaderPut fileName file env s = .ok r → r.1 = .ok → r.2.accepted = file

/-- **When a successful upload is complete.**  It is whenever the turns of a loop that the replies
let succeed are `Whole`.  If nothing is accepted when `read` has failed, it is complete only then.
-/
theorem ftpUploaderPut_complete (fileName : Option CText) (file : List UInt8) (env : FtpPutEnv)
    (s : FtpState) :
    ((Answered fileName env s → LoopEnds env.turns file → Whole env.turns file) →
        CompleteUpload fileName file env s) ∧
      (NothingStray env.turns file → CompleteUpload fileName file env s →
        Answered fileName env s → LoopEnds env.turns file → Whole env.turns file) := by
  constructor
  · intro hwhole r hr hret
    obtain ⟨hans, c, hc, haccepted⟩ :=
      (ftpUploaderPut_ok fileName file env s r.2.accepted).1 ⟨r, hr, hret, rfl⟩
    have hends := (putLoop_ends env.behind env.turns ⟨file, env.dataBuf, []⟩).2 ⟨c, hc⟩
    rw [← haccepted]
    exact putLoop_whole (hwhole hans hends) hc
  · intro hstray hcomplete hans hends
    obtain ⟨c, hc⟩ := (putLoop_ends env.behind env.turns ⟨file, env.dataBuf, []⟩).1 hends
    obtain ⟨r, hr, hret, hbytes⟩ :=
      (ftpUploaderPut_ok fileName file env s c.accepted).2 ⟨hans, c, hc, rfl⟩
    have hall : c.accepted = file := hbytes.symm.trans (hcomplete r hr hret)
    by_contra hno
    have hlt := (putLoop_short hstray hc).2 hno
    rw [hall, List.length_nil, Nat.zero_add] at hlt
    exact lt_irrefl _ hlt

def passiveReply : Reply := .data ⟨literal "227 (1,1,1,1,0,1)", by decide⟩

def startReply : Reply := .data ⟨literal "150 ", by decide⟩

def doneReply : Reply := .data ⟨literal "226 ", by decide⟩

/-- A file of four bytes, of which `write` accepts the first. -/
def partialWrite : FtpPutEnv where
  pasv := passiveReply
  socket := true
  connect := true
  stor := startReply
  turns := [⟨.bytes 4, some 1⟩, ⟨.bytes 4, none⟩]
  dataBuf := []
  behind := []
  final := doneReply

/-- The other three bytes are lost, and the upload is reported as a success. -/
theorem partialWrite_reported :
    ¬ CompleteUpload (some (literal "a")) [1, 2, 3, 4] partialWrite ftpConnected := by
  have hput : (ftpUploaderPut (some (literal "a")) [1, 2, 3, 4] partialWrite ftpConnected).map
      (fun r => (r.1, r.2.accepted)) = .ok (.ok, [1]) := by decide +kernel
  intro h
  cases hrun : ftpUploaderPut (some (literal "a")) [1, 2, 3, 4] partialWrite ftpConnected with
  | error e => rw [hrun] at hput; cases hput
  | ok r =>
      rw [hrun] at hput
      have hr : (r.1, r.2.accepted) = (Ret.ok, [1]) := Except.ok.inj hput
      have haccepted : r.2.accepted = [1] := congrArg Prod.snd hr
      have hall := h r hrun (congrArg Prod.fst hr)
      rw [haccepted] at hall
      exact absurd hall (by decide)

end Wsn
