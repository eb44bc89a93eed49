/-
**Replies and reads.**

`ftp_uploader_read_response` takes what one `read` returns for one reply.  A stream of replies is
delivered in reads of any sizes, so the call stays in step with the server only if the borders
between the reads are those between the replies.

Main definitions:

* `ServerReply` — a reply of one line;
* `InStep` — the calls return what the replies say, one after the other;
* `OneReplyEach` — the sizes of reads that return one reply each.

Main results:

* `replyRet_digits`, `replyRet_head` — how the text of a reply is judged;
* `inStep_iff_judged` — the calls are in step if each read is judged as its reply is;
* `alwaysInStep_iff` — sizes of reads keep the calls in step, whatever the replies say, exactly if
  `OneReplyEach`.
-/

import WsnPlatform.FtpUploader
import WsnPlatform.FaultRun

set_option relaxedAutoImplicit false
set_option autoImplicit false

namespace Wsn

open CScan FaultRun

/-! ### Numbers -/

/-- The digits that `atoi` takes. -/
def atoiDigits (s : CText) : CText :=
  match s.dropWhile isSpace with
  | [] => []
  | c :: t => if c = 45 ∨ c = 43 then t.takeWhile isDigit else (c :: t).takeWhile isDigit

theorem natAbs_atoi (s : CText) : (atoi s).natAbs = decimal (atoiDigits s) := by
  unfold atoi atoiDigits
  cases s.dropWhile isSpace with
  | nil => rfl
  | cons c t =>
      by_cases hminus : c = 45
      · simp [hminus]
      · by_cases hplus : c = 43 <;> simp [hminus, hplus]

theorem isDigit_of_mem_atoiDigits {s : CText} {c : UInt8} (h : c ∈ atoiDigits s) :
    isDigit c = true := by
  unfold atoiDigits at h
  split at h
  · cases h
  · split at h <;> exact List.mem_takeWhile_imp h

/-- Not every character of a text is taken for a digit, if it does not begin with one. -/
theorem length_atoiDigits_lt {c : UInt8} (hc : isDigit c = false) (t : CText) :
    (atoiDigits (c :: t)).length ≤ t.length := by
  unfold atoiDigits
  by_cases hspace : isSpace c = true
  · rw [List.dropWhile_cons_of_pos hspace]
    have hlen := (List.dropWhile_suffix (l := t) isSpace).length_le
    cases hdrop : t.dropWhile isSpace with
    | nil => exact Nat.zero_le _
    | cons d u =>
        rw [hdrop, List.length_cons] at hlen
        dsimp only
        split
        · exact ((List.takeWhile_prefix isDigit).length_le).trans (by omega)
        · exact ((List.takeWhile_prefix isDigit).length_le).trans hlen
  · rw [List.dropWhile_cons_of_neg hspace]
    dsimp only
    split
    · exact (List.takeWhile_prefix isDigit).length_le
    · rw [List.takeWhile_cons_of_neg (by rw [hc]; exact Bool.false_ne_true)]
      exact Nat.zero_le _

theorem not_isSpace_of_isDigit {c : UInt8} (hc : isDigit c = true) : isSpace c = false := by
  have hrange := isDigit_iff.1 hc
  simp only [isSpace, decide_eq_false_iff_not]
  rintro (rfl | ⟨-, h13⟩)
  · simp at hrange
  · rw [UInt8.le_iff_toNat_le] at h13
    have h13' : c.toNat ≤ 13 := h13
    omega

theorem atoiDigits_of_digit {c : UInt8} (hc : isDigit c = true) (t : CText) :
    atoiDigits (c :: t) = (c :: t).takeWhile isDigit := by
  have hspace := not_isSpace_of_isDigit hc
  have hrange := isDigit_iff.1 hc
  have hminus : c ≠ 45 := by rintro rfl; simp at hrange
  have hplus : c ≠ 43 := by rintro rfl; simp at hrange
  rw [atoiDigits, List.dropWhile_cons_of_neg (by rw [hspace]; exact Bool.false_ne_true)]
  simp [hminus, hplus]

/-- A text that begins with a digit is read from there. -/
theorem atoi_of_digit {c : UInt8} (hc : isDigit c = true) (t : CText) :
    atoi (c :: t) = decimal ((c :: t).takeWhile isDigit) := by
  have hspace := not_isSpace_of_isDigit hc
  have hrange := isDigit_iff.1 hc
  have hminus : c ≠ 45 := by rintro rfl; simp at hrange
  have hplus : c ≠ 43 := by rintro rfl; simp at hrange
  rw [atoi, List.dropWhile_cons_of_neg (by rw [hspace]; exact Bool.false_ne_true)]
  simp [hminus, hplus]

/-! ### Judging a reply -/

/-- The characters at the front of a reply say yes. -/
def Positive (c : UInt8) : Prop := 49 ≤ c.toNat ∧ c.toNat ≤ 51

instance (c : UInt8) : Decidable (Positive c) :=
  inferInstanceAs (Decidable (49 ≤ c.toNat ∧ c.toNat ≤ 51))

theorem replySwitch_eq_ok {q : ℤ} : replySwitch q = .ok ↔ 1 ≤ q ∧ q ≤ 3 := by
  constructor
  · intro h
    unfold replySwitch at h
    split at h <;> simp at h ⊢
  · rintro ⟨hlow, hhigh⟩
    interval_cases q <;> rfl

/-- **Three digits in front of a character** are judged by the first of them. -/
theorem replyRet_digits {a b c : UInt8} (ha : isDigit a = true) (hb : isDigit b = true)
    (hc : isDigit c = true) (d : UInt8) (t : CText) :
    replyRet (a :: b :: c :: d :: t) = .ok ↔ Positive a := by
  have ha' := isDigit_iff.1 ha
  have hb' := isDigit_iff.1 hb
  have hc' := isDigit_iff.1 hc
  have hvalue : parseReplyCode (a :: b :: c :: d :: t) =
      some ((100 * (a.toNat - 48) + 10 * (b.toNat - 48) + (c.toNat - 48) : ℕ) : ℤ) := by
    rw [parseReplyCode, if_neg (by simp)]
    simp only [List.take_succ_cons, List.take_zero, atoi_of_digit ha, List.takeWhile_cons, ha, hb, hc,
      if_true, List.takeWhile_nil, decimal, List.foldl_cons, List.foldl_nil]
    congr 2
    omega
  rw [replyRet, hvalue]
  dsimp only
  rw [replySwitch_eq_ok, Int.tdiv_eq_ediv_of_nonneg (by positivity), Positive]
  omega

/-- **A reply that is judged positive** has four characters at least, and begins with a `1`, `2` or
`3`. -/
theorem replyRet_head {s : CText} (h : replyRet s = .ok) :
    4 ≤ s.length ∧ ∃ c t, s = c :: t ∧ Positive c := by
  by_cases hlen : s.length < 4
  · rw [replyRet, parseReplyCode, if_pos hlen] at h
    cases h
  obtain ⟨a, b, c, d, t, rfl⟩ : ∃ a b c d t, s = a :: b :: c :: d :: t := by
    rcases s with - | ⟨a, - | ⟨b, - | ⟨c, - | ⟨d, t⟩⟩⟩⟩
    · simp at hlen
    · simp at hlen
    · simp at hlen
    · simp at hlen
    · exact ⟨a, b, c, d, t, rfl⟩
  refine ⟨by simp, a, b :: c :: d :: t, rfl, ?_⟩
  -- with fewer than three digits the code is less than a hundred
  have hthree : (atoiDigits [a, b, c]).length ≤ 2 → False := by
    intro hle
    have hlt := decimal_lt fun e he => isDigit_of_mem_atoiDigits (s := [a, b, c]) he
    have hpow : 10 ^ (atoiDigits [a, b, c]).length ≤ 10 ^ 2 := Nat.pow_le_pow_right (by omega) hle
    rw [← natAbs_atoi] at hlt
    have hcode : replyRet (a :: b :: c :: d :: t) = replySwitch ((atoi [a, b, c]).tdiv 100) := by
      rw [replyRet, parseReplyCode, if_neg hlen]
      rfl
    rw [hcode, replySwitch_eq_ok] at h
    have hzero : (atoi [a, b, c]).tdiv 100 = 0 := by
      rw [← Int.natAbs_eq_zero, Int.natAbs_tdiv]
      exact Nat.div_eq_of_lt (hlt.trans_le hpow)
    omega
  by_cases ha : isDigit a = true
  · by_cases hb : isDigit b = true
    · by_cases hc : isDigit c = true
      · exact (replyRet_digits ha hb hc d t).1 h
      · exact (hthree (by simp [atoiDigits_of_digit ha, ha, hb, hc])).elim
    · exact (hthree (by simp [atoiDigits_of_digit ha, ha, hb])).elim
  · exact (hthree (length_atoiDigits_lt (by simpa using ha) [b, c])).elim

/-! ### Replies and reads -/

def digitChar (d : Fin 10) : UInt8 := UInt8.ofNat (48 + d.val)

theorem toNat_digitChar (d : Fin 10) : (digitChar d).toNat = 48 + d.val := by
  rw [digitChar, UInt8.toNat_ofNat']
  omega

theorem isDigit_digitChar (d : Fin 10) : isDigit (digitChar d) = true := by
  rw [isDigit_iff, toNat_digitChar]
  omega

/-- **A reply of one line**: a code of three digits, a blank, a text, and CR LF. -/
structure ServerReply where
  hundreds : Fin 10
  tens : Fin 10
  units : Fin 10
  text : { t : CText // (10 : UInt8) ∉ t ∧ (13 : UInt8) ∉ t }

namespace ServerReply

def bytes (r : ServerReply) : List UInt8 :=
  digitChar r.hundreds :: digitChar r.tens :: digitChar r.units :: 32 :: (r.text.val ++ crlf)

/-- The code is 1xx, 2xx or 3xx. -/
def Accepts (r : ServerReply) : Prop := 1 ≤ r.hundreds.val ∧ r.hundreds.val ≤ 3

theorem length_bytes (r : ServerReply) : r.bytes.length = r.text.val.length + 6 := by
  simp [bytes, crlf, literal]

end ServerReply

/-- What the server sends. -/
def replyStream (replies : List ServerReply) : List UInt8 := replies.flatMap ServerReply.bytes

/-- What a `read` returns for the bytes that it is to deliver. -/
def readOf (bytes : List UInt8) : Reply :=
  if h : bytes ≠ [] ∧ bytes.length ≤ respBufferSize then .data ⟨bytes, h⟩ else .closed

/-- **A stream is delivered** in reads of the sizes. -/
def deliver : List ℕ → List UInt8 → List Reply
  | [], _ => []
  | n :: ns, stream => readOf (stream.take n) :: deliver ns (stream.drop n)

/-- A call of `ftp_uploader_read_response`. -/
def responseStep (s : FtpState) (reply : Reply) : Except Fault (Ret × FtpState) :=
  readResponse reply s

/-- **The calls are in step with the server**: there is a read for each reply, and the call returns
what the reply says. -/
def InStep (s : FtpState) (replies : List ServerReply) (reads : List Reply) : Prop :=
  ∃ tr t, trace responseStep s (reads.take replies.length) = .ok (tr, t) ∧
    List.Forall₂ (fun (o : Ret × FtpState) (r : ServerReply) => o.1 = .ok ↔ r.Accepts) tr replies

/-- A read is judged as the reply is. -/
def JudgedAs (read : Reply) (r : ServerReply) : Prop :=
  ∃ ret, judge read = some ret ∧ (ret = .ok ↔ r.Accepts)

theorem responseStep_of_judge {s : FtpState} (hsocket : s.thiz.commandSocket ≠ none) {read : Reply}
    {ret : Ret} (h : judge read = some ret) :
    ∃ s', responseStep s read = .ok (ret, s') ∧ s'.thiz.commandSocket ≠ none := by
  obtain ⟨response, -, hrun⟩ := readResponse_of_judge hsocket h
  exact ⟨_, hrun, hsocket⟩

theorem responseStep_of_not_judge {s : FtpState} (hsocket : s.thiz.commandSocket ≠ none)
    {read : Reply} (h : judge read = none) : responseStep s read = .error .outOfBounds := by
  rcases readResponse_cases read s with ⟨hnone, -⟩ | ⟨-, -, hrun⟩ | ⟨-, ret, _, hjudge, -, -⟩
  · exact absurd hnone hsocket
  · exact hrun
  · rw [h] at hjudge; cases hjudge

/-- **The calls are in step exactly if each read is judged as its reply is.** -/
theorem inStep_iff_judged {s : FtpState} (hsocket : s.thiz.commandSocket ≠ none)
    (replies : List ServerReply) (reads : List Reply) :
    InStep s replies reads ↔ List.Forall₂ JudgedAs (reads.take replies.length) replies := by
  rw [InStep]
  generalize reads.take replies.length = front
  induction front generalizing s replies with
  | nil =>
      constructor
      · rintro ⟨tr, t, hrun, hall⟩
        cases hrun
        cases hall
        exact .nil
      · intro hall
        cases hall
        exact ⟨[], s, rfl, .nil⟩
  | cons read front ih =>
      cases hjudge : judge read with
      | none =>
          have hstep := responseStep_of_not_judge hsocket hjudge
          constructor
          · rintro ⟨tr, t, hrun, -⟩
            rw [trace_cons_error hstep] at hrun
            cases hrun
          · intro hall
            cases hall with
            | cons hread _ =>
                obtain ⟨ret, hret, -⟩ := hread
                rw [hjudge] at hret
                cases hret
      | some ret =>
          obtain ⟨s', hstep, hsocket'⟩ := responseStep_of_judge hsocket hjudge
          constructor
          · rintro ⟨tr, t, hrun, hall⟩
            obtain ⟨o, tr', ho, hrest, rfl⟩ := trace_cons_eq_ok.1 hrun
            rw [hstep] at ho
            cases ho
            cases hall with
            | cons hhead htail =>
                exact .cons ⟨ret, hjudge, hhead⟩ ((ih hsocket' _).1 ⟨tr', t, hrest, htail⟩)
          · intro hall
            cases hall with
            | cons hread htail =>
                obtain ⟨ret', hret', hiff⟩ := hread
                rw [hjudge] at hret'
                cases hret'
                obtain ⟨tr', t, hrest, htail'⟩ := (ih hsocket' _).2 htail
                exact ⟨_, t, trace_cons_ok hstep hrest, .cons hiff htail'⟩

/-! ### Judging a read -/

/-- A read that is judged positive. -/
theorem judge_readOf_ok {bytes : List UInt8} (h : judge (readOf bytes) = some .ok) :
    4 ≤ bytes.length ∧ bytes.length < respBufferSize ∧ ∃ c t, bytes = c :: t ∧ Positive c := by
  rw [readOf] at h
  split at h
  · rw [judge] at h
    split at h
    · next hlen =>
        simp only [Option.some.injEq] at h
        obtain ⟨hfour, c, t, htext, hpos⟩ := replyRet_head h
        have hprefix : textOf bytes <+: bytes := List.takeWhile_prefix _
        refine ⟨hfour.trans hprefix.length_le, hlen, ?_⟩
        obtain ⟨rest, hrest⟩ := hprefix
        rw [htext] at hrest
        exact ⟨c, t ++ rest, hrest.symm, hpos⟩
    · cases h
  · cases h

theorem judgedAs_accepts {bytes : List UInt8} {r : ServerReply} (hr : r.Accepts)
    (h : JudgedAs (readOf bytes) r) : judge (readOf bytes) = some .ok := by
  obtain ⟨ret, hret, hiff⟩ := h
  rwa [hiff.2 hr] at hret

theorem digitChar_ne_zero (d : Fin 10) : digitChar d ≠ 0 := by
  intro h
  have hnat := toNat_digitChar d
  rw [h, UInt8.toNat_zero] at hnat
  omega

/-- **A read that returns at least the code of a reply and the blank** is judged as the reply is. -/
theorem judgedAs_front (r : ServerReply) (rest : List UInt8) {n : ℕ} (hfour : 4 ≤ n)
    (hn : n < respBufferSize) : JudgedAs (readOf ((r.bytes ++ rest).take n)) r := by
  obtain ⟨m, rfl⟩ : ∃ m, n = m + 4 := ⟨n - 4, by omega⟩
  set front := (r.bytes ++ rest).take (m + 4) with hfront
  have hlen : front.length < respBufferSize := (List.length_take_le _ _).trans_lt hn
  have hcons : front = digitChar r.hundreds :: digitChar r.tens :: digitChar r.units :: 32 ::
      (r.text.val ++ crlf ++ rest).take m := rfl
  have hread : judge (readOf front) = some (replyRet (textOf front)) := by
    rw [readOf, dif_pos ⟨by rw [hcons]; exact List.cons_ne_nil _ _, hlen.le⟩, judge, if_pos hlen]
  refine ⟨_, hread, ?_⟩
  rw [hcons, textOf_cons (digitChar_ne_zero _), textOf_cons (digitChar_ne_zero _),
    textOf_cons (digitChar_ne_zero _), textOf_cons (by decide),
    replyRet_digits (isDigit_digitChar _) (isDigit_digitChar _) (isDigit_digitChar _), Positive,
    toNat_digitChar, ServerReply.Accepts]
  omega

/-! ### Which sizes of reads keep in step -/

/-- **One reply each**: the first reads return exactly one reply, the last of them at least the code
and the blank of the last reply, and each leaves room for the NUL.  The replies are told by the
lengths of their texts. -/
def OneReplyEach : List ℕ → List ℕ → Prop
  | [], _ => True
  | [_], n :: _ => 4 ≤ n ∧ n < respBufferSize
  | t :: t' :: ts, n :: ns => n = t + 6 ∧ n < respBufferSize ∧ OneReplyEach (t' :: ts) ns
  | _ :: _, [] => False

/-- The lengths of the texts. -/
def textLengths (replies : List ServerReply) : List ℕ := replies.map fun r => r.text.val.length

/-- Whatever the replies with texts of these lengths say, the reads are judged as they are. -/
def AlwaysJudged (texts sizes : List ℕ) : Prop :=
  ∀ replies, textLengths replies = texts →
    List.Forall₂ JudgedAs ((deliver sizes (replyStream replies)).take replies.length) replies

/-- A reply with the code 200 or 500. -/
def sampleReply (accepts : Bool) (t : ℕ) : ServerReply :=
  ⟨if accepts then 2 else 5, 0, 0, ⟨List.replicate t 97, by simp [List.mem_replicate],
    by simp [List.mem_replicate]⟩⟩

/-- No character of the text is a `1`, `2` or `3`. -/
def NoPositive (text : List UInt8) : Prop := ∀ c ∈ text, ¬ Positive c

theorem noPositive_append {a b : List UInt8} (ha : NoPositive a) (hb : NoPositive b) :
    NoPositive (a ++ b) := by
  intro c hc
  rcases List.mem_append.1 hc with h | h
  · exact ha c h
  · exact hb c h

/-- What follows the first digit of a sample. -/
def sampleTail (t : ℕ) : List UInt8 := 48 :: 48 :: 32 :: (List.replicate t 97 ++ crlf)

theorem noPositive_sampleTail (t : ℕ) : NoPositive (sampleTail t) := by
  intro c hc
  have hcases : c = 48 ∨ c = 32 ∨ c = 97 ∨ c = 13 ∨ c = 10 := by
    simp only [sampleTail, List.mem_cons, List.mem_append, List.mem_replicate] at hc
    have hcrlf : c ∈ crlf → c = 13 ∨ c = 10 := by
      intro h
      simpa [crlf_eq] using h
    tauto
  rcases hcases with rfl | rfl | rfl | rfl | rfl <;> decide

theorem noPositive_samples (ts : List ℕ) :
    NoPositive (replyStream (ts.map (sampleReply false))) := by
  induction ts with
  | nil => intro c hc; cases hc
  | cons t ts ih =>
      have hsample : NoPositive (sampleReply false t).bytes := by
        intro c hc
        have hfive : ¬ Positive (digitChar 5) := by decide
        rcases List.mem_cons.1 hc with rfl | hc
        · exact hfive
        · exact noPositive_sampleTail t c hc
      exact noPositive_append hsample ih

/-- A single `1`, `2` or `3` tells its place. -/
theorem eq_length_of_drop {front back u : List UInt8} {c d : UInt8} {n : ℕ}
    (hfront : NoPositive front) (hback : NoPositive back) (hd : Positive d)
    (h : (front ++ c :: back).drop n = d :: u) : n = front.length := by
  rcases lt_trichotomy n front.length with hlt | heq | hgt
  · rw [List.drop_append_of_le_length hlt.le, List.drop_eq_getElem_cons hlt] at h
    have hmem : d ∈ front := by
      rw [List.cons_append] at h
      cases h
      exact List.getElem_mem hlt
    exact absurd hd (hfront d hmem)
  · exact heq
  · obtain ⟨m, rfl⟩ : ∃ m, n = front.length + (m + 1) := ⟨n - front.length - 1, by omega⟩
    rw [List.drop_length_add_append, List.drop_succ_cons] at h
    have hmem : d ∈ back := (List.drop_suffix m back).subset (by rw [h]; exact List.mem_cons_self)
    exact absurd hd (hback d hmem)

theorem length_bytes_sample (accepts : Bool) (t : ℕ) :
    (sampleReply accepts t).bytes.length = t + 6 := by
  rw [ServerReply.length_bytes]
  simp [sampleReply]

theorem textLengths_samples (ts : List ℕ) : textLengths (ts.map (sampleReply false)) = ts := by
  induction ts with
  | nil => rfl
  | cons t ts ih =>
      rw [List.map_cons, textLengths, List.map_cons]
      exact congrArg₂ _ (by simp [sampleReply]) ih

theorem length_replyStream (replies : List ServerReply) :
    (replyStream replies).length = ((textLengths replies).map (· + 6)).sum := by
  induction replies with
  | nil => rfl
  | cons r replies ih =>
      have hstream : replyStream (r :: replies) = r.bytes ++ replyStream replies := rfl
      rw [hstream, List.length_append, ih, r.length_bytes]
      rfl

section

variable {t t' n : ℕ} {ts ns : List ℕ}

theorem textLengths_cons {r : ServerReply} {replies : List ServerReply}
    (hr : r.text.val.length = t) (h : textLengths replies = ts) :
    textLengths (r :: replies) = t :: ts := by
  rw [textLengths, List.map_cons, hr]
  exact congrArg _ h

/-- What is judged of the replies, apart from the first. -/
theorem AlwaysJudged.cons_inv (h : AlwaysJudged (t :: ts) (n :: ns)) {r : ServerReply}
    (hr : r.text.val.length = t) {replies : List ServerReply} (hreplies : textLengths replies = ts) :
    JudgedAs (readOf ((replyStream (r :: replies)).take n)) r ∧
      List.Forall₂ JudgedAs
        ((deliver ns ((replyStream (r :: replies)).drop n)).take replies.length) replies := by
  have hall := h (r :: replies) (textLengths_cons hr hreplies)
  rw [List.length_cons, deliver, List.take_succ_cons] at hall
  cases hall with
  | cons hread hrest => exact ⟨hread, hrest⟩

theorem length_sample (accepts : Bool) (t : ℕ) : (sampleReply accepts t).text.val.length = t := by
  simp [sampleReply]

theorem accepts_sample (t : ℕ) : (sampleReply true t).Accepts := by
  have htwo : 1 ≤ 2 ∧ 2 ≤ 3 := by decide
  exact htwo

/-- The first read returns the code of the first reply, and leaves room for the NUL. -/
theorem AlwaysJudged.first (h : AlwaysJudged (t :: ts) (n :: ns))
    (hn : n ≤ ((t :: ts).map (· + 6)).sum) : 4 ≤ n ∧ n < respBufferSize := by
  have htexts := textLengths_samples ts
  obtain ⟨hread, -⟩ := h.cons_inv (length_sample true t) htexts
  obtain ⟨hfour, hlen, -⟩ := judge_readOf_ok (judgedAs_accepts (accepts_sample t) hread)
  have hstream := length_replyStream (sampleReply true t :: ts.map (sampleReply false))
  rw [textLengths_cons (length_sample true t) htexts] at hstream
  rw [List.length_take, hstream, min_eq_left hn] at hfour hlen
  exact ⟨hfour, hlen⟩

/-- The second read begins where the second reply does. -/
theorem AlwaysJudged.second (h : AlwaysJudged (t :: t' :: ts) (n :: ns)) : n = t + 6 := by
  have htexts := textLengths_cons (length_sample true t') (textLengths_samples ts)
  obtain ⟨-, hrest⟩ := h.cons_inv (length_sample false t) htexts
  cases ns with
  | nil => cases hrest
  | cons n' ns =>
      rw [deliver, List.length_cons, List.take_succ_cons] at hrest
      obtain ⟨hread, -⟩ := List.forall₂_cons.1 hrest
      obtain ⟨-, -, c, u, hcons, hpos⟩ :=
        judge_readOf_ok (judgedAs_accepts (accepts_sample t') hread)
      set stream := replyStream (sampleReply false t :: sampleReply true t' ::
        ts.map (sampleReply false)) with hstream
      have hdrop : stream.drop n = c :: (u ++ (stream.drop n).drop n') := by
        rw [← List.cons_append, ← hcons, List.take_append_drop]
      have hsplit : stream = (sampleReply false t).bytes ++ digitChar 2 ::
          (sampleTail t' ++ replyStream (ts.map (sampleReply false))) := rfl
      have hfalse : NoPositive (sampleReply false t).bytes := by
        have hsingle := noPositive_samples [t]
        simpa [replyStream] using hsingle
      have hback := noPositive_append (noPositive_sampleTail t') (noPositive_samples ts)
      rw [hsplit] at hdrop
      rw [← length_bytes_sample false t]
      exact eq_length_of_drop hfalse hback hpos hdrop

/-- Behind a whole reply, the rest of the replies is delivered by the rest of the reads. -/
theorem drop_replyStream {r : ServerReply} (hr : r.text.val.length = t)
    (replies : List ServerReply) :
    (replyStream (r :: replies)).drop (t + 6) = replyStream replies := by
  have hstream : replyStream (r :: replies) = r.bytes ++ replyStream replies := rfl
  rw [hstream, ← hr, ← r.length_bytes, List.drop_left]

theorem AlwaysJudged.tail (h : AlwaysJudged (t :: ts) ((t + 6) :: ns)) : AlwaysJudged ts ns := by
  intro replies hreplies
  obtain ⟨-, hrest⟩ := h.cons_inv (length_sample true t) hreplies
  rwa [drop_replyStream (length_sample true t)] at hrest

/-- A read that returns the first reply, in front of reads that keep in step. -/
theorem AlwaysJudged.cons (hn : t + 6 < respBufferSize) (h : AlwaysJudged ts ns) :
    AlwaysJudged (t :: ts) ((t + 6) :: ns) := by
  intro replies hreplies
  cases replies with
  | nil => cases hreplies
  | cons r replies =>
      rw [textLengths, List.map_cons, List.cons.injEq] at hreplies
      obtain ⟨hr, hreplies⟩ := hreplies
      rw [deliver, List.length_cons, List.take_succ_cons, drop_replyStream hr]
      exact .cons (judgedAs_front r (replyStream replies) (by omega) hn) (h replies hreplies)

/-- **Reads that are judged as the replies, whatever these say, return one reply each.** -/
theorem alwaysJudged_iff {texts sizes : List ℕ} (hsum : sizes.sum = (texts.map (· + 6)).sum) :
    AlwaysJudged texts sizes ↔ OneReplyEach texts sizes := by
  induction texts generalizing sizes with
  | nil =>
      refine iff_of_true (fun replies hreplies => ?_) trivial
      have hnil : replies = [] := List.map_eq_nil_iff.1 hreplies
      rw [hnil]
      exact .nil
  | cons t ts ih =>
      cases sizes with
      | nil =>
          simp only [List.sum_nil, List.map_cons, List.sum_cons] at hsum
          omega
      | cons n ns =>
          have hle : n ≤ ((t :: ts).map (· + 6)).sum := by
            rw [← hsum, List.sum_cons]
            exact Nat.le_add_right n _
          cases ts with
          | nil =>
              refine ⟨fun h => h.first hle, fun ⟨hfour, hn⟩ replies hreplies => ?_⟩
              cases replies with
              | nil => cases hreplies
              | cons r replies =>
                  have hnil : replies = [] := by
                    simpa [textLengths] using congrArg List.tail hreplies
                  subst hnil
                  rw [deliver, List.length_singleton, List.take_succ_cons]
                  exact .cons (judgedAs_front r [] hfour hn) .nil
          | cons t' ts =>
              rw [OneReplyEach]
              constructor
              · intro h
                obtain rfl := h.second
                refine ⟨rfl, (h.first hle).2, (ih ?_).1 h.tail⟩
                simpa using hsum
              · rintro ⟨rfl, hn, hrest⟩
                refine ((ih ?_).2 hrest).cons hn
                simpa using hsum

end

/-- **The calls are in step**, on every uploader with a command socket and whatever the replies with
texts of these lengths say. -/
def AlwaysInStep (texts sizes : List ℕ) : Prop :=
  ∀ s : FtpState, s.thiz.commandSocket ≠ none →
    ∀ replies, textLengths replies = texts →
      InStep s replies (deliver sizes (replyStream replies))

/-- **Which sizes of reads keep the calls in step**: exactly those that return one reply each. -/
theorem alwaysInStep_iff {texts sizes : List ℕ} (hsum : sizes.sum = (texts.map (· + 6)).sum) :
    AlwaysInStep texts sizes ↔ OneReplyEach texts sizes := by
  rw [← alwaysJudged_iff hsum]
  constructor
  · intro h replies hreplies
    have hsocket : ftpConnected.thiz.commandSocket ≠ none := by decide
    exact (inStep_iff_judged hsocket _ _).1 (h ftpConnected hsocket replies hreplies)
  · intro h s hsocket replies hreplies
    exact (inStep_iff_judged hsocket _ _).2 (h replies hreplies)

/-- Two replies, each in a read of its own. -/
theorem twoReplies_inStep : AlwaysInStep [1, 1] [7, 7] := by
  refine (alwaysInStep_iff (by decide)).2 ?_
  exact ⟨rfl, by decide, by decide, by decide⟩

/-- The replies `150 a` and `226 b`. -/
def startAndEnd : List ServerReply :=
  [⟨1, 5, 0, ⟨[97], by decide⟩⟩, ⟨2, 2, 6, ⟨[98], by decide⟩⟩]

/-- The first reply arrives in two reads: the first call fails. -/
theorem splitReply_outOfStep :
    ¬ InStep ftpConnected startAndEnd (deliver [3, 4, 7] (replyStream startAndEnd)) := by
  rw [inStep_iff_judged (by decide)]
  intro hall
  obtain ⟨⟨ret, hret, hiff⟩, -⟩ := List.forall₂_cons.1 hall
  have hfail : judge (readOf ((replyStream startAndEnd).take 3)) = some .fail := by decide
  rw [hfail] at hret
  cases hret
  exact absurd (hiff.2 ⟨by decide, by decide⟩) (by decide)

end Wsn
