/-
**The lines of the FTP commands.**

Three commands of `src/deployer/ftp_uploader.c` carry a text of the configuration.  Those of a login
are printed into a buffer that is made for the longer of two texts whose lengths have been checked;
the name of a file is printed into an array of a hundred bytes, and its length is not looked at.

Main definitions:

* `WritesWhole` — a call writes whole lines alone, and fails if a text does not fit;
* `LoginComplete`, `PutComplete` — so does every call for these texts;
* `LoginRefused` — the checks of a login let it end before its first line.

Main results:

* `loginComplete_iff`, `putComplete_iff` — for which texts the lines are whole;
* `ftpCommands_complete_iff` — both.
-/

import WsnPlatform.FtpPut

set_option relaxedAutoImplicit false
set_option autoImplicit false

namespace Wsn

/-! ### Whole lines -/

/-- A line that a call is to write, and whether the text in it fits. -/
structure FtpLine where
  text : CText
  fits : Prop

/-- **Whole lines alone are written**: those that were written are the first of the lines, all of
their texts fit, and a call with a text that does not fit fails. -/
def WritesWhole (lines : List FtpLine) (s : FtpState) (r : Ret × FtpState) : Prop :=
  ∃ sent, sent <+: lines ∧ r.2.written = s.written ++ sent.map FtpLine.text ∧
    (∀ line ∈ sent, line.fits) ∧ ((∃ line ∈ lines, ¬ line.fits) → r.1 = .fail)

/-- The lines of a login. -/
def loginLines (userName pass : CText) : List FtpLine :=
  [⟨literal "USER " ++ userName ++ crlf, userName.length ≤ userNameMaxLength⟩,
    ⟨literal "PASS " ++ pass ++ crlf, pass.length ≤ passwordMaxLength⟩]

/-- The lines for a file. -/
def putLines (name : CText) : List FtpLine :=
  [⟨literal "PASV\r\n", True⟩,
    ⟨literal "STOR " ++ name ++ crlf, (literal "STOR " ++ name ++ crlf).length < sendBufferSize⟩]

/-- **A login with the texts writes whole lines.** -/
def LoginComplete (userName pass : CText) : Prop :=
  ∀ env s r, ftpUploaderLogin (some userName) (some pass) env s = .ok r →
    WritesWhole (loginLines userName pass) s r

/-- **An upload under the name writes whole lines.** -/
def PutComplete (name : CText) : Prop :=
  ∀ file env s r, ftpUploaderPut (some name) file env s = .ok r → WritesWhole (putLines name) s r

/-- A call that has failed before its first line. -/
theorem writesWhole_failed (lines : List FtpLine) (s : FtpState) :
    WritesWhole lines s (.fail, s) :=
  ⟨[], List.nil_prefix, by rw [List.map_nil, List.append_nil], fun _ h => absurd h List.not_mem_nil,
    fun _ => rfl⟩

/-- A text that is shorter than the buffer is printed whole. -/
theorem snprintf_of_lt {size : ℕ} {text : CText} (h : text.length < size) :
    snprintf size text = text :=
  List.take_of_length_le (by omega)

/-- A call that prints its lines into a buffer which holds them all. -/
theorem writesWhole_printed {lines sent : List FtpLine} {size : ℕ} {s : FtpState}
    {r : Ret × FtpState} (hfits : ∀ line ∈ lines, line.fits ∧ line.text.length < size)
    (hsent : sent <+: lines)
    (hwritten : r.2.written = s.written ++ sent.map fun line => snprintf size line.text) :
    WritesWhole lines s r := by
  have hwhole : ∀ line ∈ sent, snprintf size line.text = line.text := by
    intro line hline
    exact snprintf_of_lt (hfits line (hsent.subset hline)).2
  rw [List.map_congr_left hwhole] at hwritten
  refine ⟨sent, hsent, hwritten, fun line hline => (hfits line (hsent.subset hline)).1, ?_⟩
  intro hno
  obtain ⟨line, hline, hline'⟩ := hno
  exact absurd (hfits line hline).1 hline'

/-- A call that succeeds, with a text that does not fit. -/
theorem not_writesWhole {lines : List FtpLine} {s : FtpState} {r : Ret × FtpState}
    (hno : ∃ line ∈ lines, ¬ line.fits) (hret : r.1 = .ok) : ¬ WritesWhole lines s r := by
  intro h
  obtain ⟨sent, -, -, -, hfail⟩ := h
  have hfail' := hfail hno
  rw [hret] at hfail'
  cases hfail'

/-- What a command and the reply to it have written. -/
theorem written_answered {reply : Reply} {text : CText} {s : FtpState} {r : Ret × FtpState}
    (h : readResponse reply (s.command text) = .ok r) : r.2.written = s.written ++ [text] := by
  obtain ⟨response, hr⟩ := readResponse_frame h
  rw [hr]
  rfl

/-! ### The login -/

/-- **The checks of a login let it end before its first line.** -/
def LoginRefused (userName pass : CText) : Prop :=
  userNameMaxLength < strlenInt userName ∨ passwordMaxLength < strlenInt pass ∨
    max (strlenInt userName) (strlenInt pass) + commandEndSize < 0

/-- The size of its buffer. -/
def loginSize (userName pass : CText) : ℕ :=
  (max (strlenInt userName) (strlenInt pass) + commandEndSize).toNat

/-- **What a login writes**: nothing, or its lines as far as they go into the buffer. -/
theorem ftpUploaderLogin_written {userName pass : CText} {env : FtpLoginEnv} {s : FtpState}
    {r : Ret × FtpState} (h : ftpUploaderLogin (some userName) (some pass) env s = .ok r) :
    r = (.fail, s) ∨ ¬ LoginRefused userName pass ∧ ∃ sent, sent <+: loginLines userName pass ∧
      r.2.written = s.written ++
        sent.map fun line => snprintf (loginSize userName pass) line.text := by
  rw [ftpUploaderLogin.eq_def] at h
  dsimp only at h
  split_ifs at h with huser hpass hbuf
  · exact Or.inl (Except.ok.inj h).symm
  · exact Or.inl (Except.ok.inj h).symm
  · exact Or.inl (Except.ok.inj h).symm
  · refine Or.inr ⟨?_, ?_⟩
    · intro hrefused
      rcases hrefused with hno | hno | hno
      · exact huser hno
      · exact hpass hno
      · exact hbuf (Or.inr hno)
    · obtain ⟨r₁, hread₁, h⟩ := bind_eq_ok.1 h
      have hwritten₁ := written_answered hread₁
      split_ifs at h
      · cases h
        exact ⟨[_], ⟨[_], rfl⟩, hwritten₁⟩
      · obtain ⟨r₂, hread₂, h⟩ := bind_eq_ok.1 h
        have hwritten₂ := written_answered hread₂
        cases h
        rw [hwritten₁, List.append_assoc] at hwritten₂
        exact ⟨_, List.prefix_rfl, hwritten₂⟩

/-- A length that an `int` can hold is stored as it is. -/
theorem strlenInt_of_le {s : CText} (h : s.length ≤ intMax) : strlenInt s = s.length := by
  have hmod : s.length % 2 ^ 32 = s.length := Nat.mod_eq_of_lt (by rw [intMax] at h; omega)
  rw [strlenInt, hmod, toInt, if_pos h]

/-- The length of a line around a text. -/
theorem length_ftpLine {keyword : CText} (hkeyword : keyword.length = 5) (text : CText) :
    (keyword ++ text ++ crlf).length = text.length + 7 := by
  rw [List.length_append, List.length_append, hkeyword, crlf_eq, List.length_cons,
    List.length_singleton]
  omega

/-- The buffer holds the lines of texts that fit. -/
theorem loginLines_fit {userName pass : CText} (huser : userName.length ≤ userNameMaxLength)
    (hpass : pass.length ≤ passwordMaxLength) :
    ∀ line ∈ loginLines userName pass,
      line.fits ∧ line.text.length < loginSize userName pass := by
  have hsize : loginSize userName pass = max userName.length pass.length + 10 := by
    rw [loginSize, strlenInt_of_le (huser.trans (by decide)),
      strlenInt_of_le (hpass.trans (by decide)), commandEndSize]
    omega
  rw [hsize]
  intro line hline
  rcases List.mem_cons.1 hline with hline | hline
  · rw [hline]
    refine ⟨huser, ?_⟩
    rw [length_ftpLine rfl]
    omega
  · rw [List.mem_singleton.1 hline]
    refine ⟨hpass, ?_⟩
    rw [length_ftpLine rfl]
    omega

theorem judge_doneReply : judge doneReply = some .ok := by decide +kernel

/-- A login that its checks do not refuse can succeed. -/
theorem ftpUploaderLogin_succeeds {userName pass : CText} (h : ¬ LoginRefused userName pass) :
    ∃ r, ftpUploaderLogin (some userName) (some pass) ⟨true, doneReply, doneReply⟩ ftpConnected =
      .ok r ∧ r.1 = .ok := by
  have huser : ¬ (userNameMaxLength : ℤ) < strlenInt userName := fun hno => h (Or.inl hno)
  have hpass : ¬ (passwordMaxLength : ℤ) < strlenInt pass := fun hno => h (Or.inr (Or.inl hno))
  have hbuf : ¬ (true = false ∨
      max (strlenInt userName) (strlenInt pass) + commandEndSize < 0) := by
    intro hno
    rcases hno with hno | hno
    · cases hno
    · exact h (Or.inr (Or.inr hno))
  rw [ftpUploaderLogin.eq_def]
  dsimp only
  rw [if_neg huser, if_neg hpass, if_neg hbuf]
  obtain ⟨response₁, -, hread₁⟩ := readResponse_of_judge
    (s := ftpConnected.command (snprintf (loginSize userName pass)
      (literal "USER " ++ userName ++ crlf))) (Option.some_ne_none 0) judge_doneReply
  obtain ⟨response₂, -, hread₂⟩ := readResponse_of_judge
    (s := ((ftpConnected.command (snprintf (loginSize userName pass)
      (literal "USER " ++ userName ++ crlf))).withResponse response₁).command
        (snprintf (loginSize userName pass) (literal "PASS " ++ pass ++ crlf)))
    (Option.some_ne_none 0) judge_doneReply
  rw [loginSize] at hread₁ hread₂
  rw [hread₁, ok_bind, if_neg (not_not.2 rfl), hread₂, ok_bind]
  exact ⟨_, rfl, rfl⟩

/-- **A login writes whole lines** for the texts that it refuses, and for those that fit. -/
theorem loginComplete_iff (userName pass : CText) :
    LoginComplete userName pass ↔ LoginRefused userName pass ∨
      userName.length ≤ userNameMaxLength ∧ pass.length ≤ passwordMaxLength := by
  constructor
  · intro h
    by_contra hno
    obtain ⟨hrefused, hfits⟩ := not_or.1 hno
    obtain ⟨r, hr, hret⟩ := ftpUploaderLogin_succeeds hrefused
    refine not_writesWhole ?_ hret (h _ _ r hr)
    by_cases huser : userName.length ≤ userNameMaxLength
    · exact ⟨_, List.mem_cons_of_mem _ List.mem_cons_self, fun hpass => hfits ⟨huser, hpass⟩⟩
    · exact ⟨_, List.mem_cons_self, huser⟩
  · intro h env s r hr
    rcases ftpUploaderLogin_written hr with hfail | ⟨hrefused, sent, hsent, hwritten⟩
    · rw [hfail]
      exact writesWhole_failed _ s
    · obtain ⟨huser, hpass⟩ := h.resolve_left hrefused
      exact writesWhole_printed (loginLines_fit huser hpass) hsent hwritten

/-- So it does for all texts whose lengths an `int` can hold. -/
theorem loginComplete_of_le {userName pass : CText} (huser : userName.length ≤ intMax)
    (hpass : pass.length ≤ intMax) : LoginComplete userName pass := by
  rw [loginComplete_iff, LoginRefused, strlenInt_of_le huser, strlenInt_of_le hpass]
  omega

/-! ### The upload -/

/-- Behind the reply to `STOR` nothing is written. -/
theorem putFile_written {file : List UInt8} {env : FtpPutEnv} {s : FtpState} {r : Ret × FtpState}
    (h : putFile file env s = .ok r) : r.2.written = s.written := by
  obtain ⟨c, -, h⟩ := bind_eq_ok.1 h
  obtain ⟨r', hread, h⟩ := bind_eq_ok.1 h
  obtain ⟨response, hr⟩ := readResponse_frame hread
  cases h
  rw [hr]
  rfl

theorem putConnection_written {name : CText} {file : List UInt8} {env : FtpPutEnv} {s : FtpState}
    {r : Ret × FtpState} (h : putConnection name file env s = .ok r) :
    r.2.written = s.written ∨ r.2.written =
      s.written ++ [snprintf sendBufferSize (literal "STOR " ++ name ++ crlf)] := by
  rw [putConnection] at h
  dsimp only at h
  split_ifs at h
  · cases h
    exact Or.inl rfl
  · obtain ⟨r', hread, h⟩ := bind_eq_ok.1 h
    have hwritten := written_answered hread
    split_ifs at h
    · cases h
      exact Or.inr hwritten
    · rw [putFile_written h]
      exact Or.inr hwritten

/-- **What an upload writes**: the first line, or both as far as they go into the buffer. -/
theorem ftpUploaderPut_written {name : CText} {file : List UInt8} {env : FtpPutEnv} {s : FtpState}
    {r : Ret × FtpState} (h : ftpUploaderPut (some name) file env s = .ok r) :
    ∃ sent, sent <+: putLines name ∧
      r.2.written = s.written ++ sent.map fun line => snprintf sendBufferSize line.text := by
  obtain ⟨r₁, hread, h⟩ := bind_eq_ok.1 h
  have hpasv : r₁.2.written = s.written ++ [snprintf sendBufferSize (literal "PASV\r\n")] :=
    written_answered hread
  split_ifs at h
  · cases h
    exact ⟨[_], ⟨[_], rfl⟩, hpasv⟩
  · obtain ⟨port, -, h⟩ := bind_eq_ok.1 h
    cases port with
    | none =>
        cases h
        exact ⟨[_], ⟨[_], rfl⟩, hpasv⟩
    | some port =>
        rcases putConnection_written h with hwritten | hwritten
        · exact ⟨[_], ⟨[_], rfl⟩, hwritten.trans hpasv⟩
        · rw [hpasv, List.append_assoc] at hwritten
          exact ⟨_, List.prefix_rfl, hwritten⟩

/-- The replies and connections of `partialWrite` let a call succeed under every name. -/
theorem partialWrite_answered (name : CText) : Answered (some name) partialWrite ftpConnected where
  named := Option.some_ne_none name
  commandSocket := Option.some_ne_none 0
  pasv := by decide +kernel
  port := by
    have hport : (storeReply ftpConnected.thiz.response passiveReply >>= fun response =>
        (parsePassivePort response.toList).map Option.isSome) = .ok true := by decide +kernel
    obtain ⟨response, hstore, hport⟩ := bind_eq_ok.1 hport
    cases hparse : parsePassivePort response.toList with
    | error e => rw [hparse] at hport; cases hport
    | ok port =>
        rw [hparse] at hport
        obtain ⟨port, hport⟩ := Option.isSome_iff_exists.1 (Except.ok.inj hport)
        exact ⟨response, port, hstore, by rw [hparse, hport]⟩
  socket := rfl
  connect := rfl
  stor := by decide +kernel
  final := judge_doneReply

/-- The upload under every name succeeds, for an empty file. -/
theorem ftpUploaderPut_succeeds (name : CText) :
    ∃ r, ftpUploaderPut (some name) [] partialWrite ftpConnected = .ok r ∧ r.1 = .ok := by
  have hloop : ∃ c, putLoop partialWrite.behind partialWrite.turns
      ⟨[], partialWrite.dataBuf, []⟩ = .ok c ∧ c.accepted = [] := ⟨_, rfl, rfl⟩
  obtain ⟨r, hr, hret, -⟩ :=
    (ftpUploaderPut_ok (some name) [] partialWrite ftpConnected []).2
      ⟨partialWrite_answered name, hloop⟩
  exact ⟨r, hr, hret⟩

/-- **An upload writes whole lines** for the names that fit. -/
theorem putComplete_iff (name : CText) : PutComplete name ↔ name.length ≤ 92 := by
  have hfits : (literal "STOR " ++ name ++ crlf).length < sendBufferSize ↔ name.length ≤ 92 := by
    rw [length_ftpLine rfl, sendBufferSize]
    omega
  constructor
  · intro h
    by_contra hno
    obtain ⟨r, hr, hret⟩ := ftpUploaderPut_succeeds name
    refine not_writesWhole ?_ hret (h _ _ _ r hr)
    exact ⟨_, List.mem_cons_of_mem _ List.mem_cons_self, fun hline => hno (hfits.1 hline)⟩
  · intro hname file env s r hr
    obtain ⟨sent, hsent, hwritten⟩ := ftpUploaderPut_written hr
    refine writesWhole_printed ?_ hsent hwritten
    intro line hline
    rcases List.mem_cons.1 hline with hline | hline
    · rw [hline]
      exact ⟨trivial, by decide⟩
    · rw [List.mem_singleton.1 hline]
      exact ⟨hfits.2 hname, hfits.2 hname⟩

/-- **Which texts come as whole lines.**  For a login, those that its checks refuse and those of at
most 32 and 100 characters; for a file, the names of at most 92. -/
theorem ftpCommands_complete_iff (userName pass name : CText) :
    (LoginComplete userName pass ↔ LoginRefused userName pass ∨
      userName.length ≤ userNameMaxLength ∧ pass.length ≤ passwordMaxLength) ∧
    (PutComplete name ↔ name.length ≤ 92) :=
  ⟨loginComplete_iff userName pass, putComplete_iff name⟩

/-- A name of 93 characters. -/
def longName : CText := List.replicate 93 97

/-- The line feed behind it is lost, and the upload is reported as a success. -/
theorem longName_truncated :
    ¬ PutComplete longName ∧ ∃ r,
      ftpUploaderPut (some longName) [] partialWrite ftpConnected = .ok r ∧ r.1 = .ok ∧
        r.2.written = [literal "PASV\r\n", literal "STOR " ++ longName ++ [13]] := by
  refine ⟨fun h => absurd ((putComplete_iff longName).1 h) (by decide), ?_⟩
  have hput : (ftpUploaderPut (some longName) [] partialWrite ftpConnected).map
      (fun r => (r.1, r.2.written)) =
        .ok (.ok, [literal "PASV\r\n", literal "STOR " ++ longName ++ [13]]) := by decide +kernel
  cases hrun : ftpUploaderPut (some longName) [] partialWrite ftpConnected with
  | error e => rw [hrun] at hput; cases hput
  | ok r =>
      rw [hrun] at hput
      have hr := Except.ok.inj hput
      exact ⟨r, rfl, congrArg Prod.fst hr, congrArg Prod.snd hr⟩

end Wsn
