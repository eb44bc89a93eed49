/-
**Receiving a HEX file of a declared length.**

`reprogrammer_receive_hex_file` counts the declared length down by what each `read` returns and asks
each `read` for a full buffer.  So the last one may take bytes that are not of the file, and a
length that is not positive as an `int` is counted down at once.

Main definitions:

* `InPieces` — the reads deliver a number of bytes in pieces of given sizes;
* `written` — what the writes make of the pieces;
* `ReceivedExactly` — a success has put the declared bytes into the file and consumed no others;
* `ExactPieces` — the pieces end with the declared length, and each is written whole.

Main results:

* `receiveHexFileLoop_spec` — what the loop does with what the reads deliver;
* `receivedExactly_iff` — when a success means what it is to mean.
-/

import WsnPlatform.Reprogrammer

set_option relaxedAutoImplicit false
set_option autoImplicit false

namespace Wsn

/-! ### Pieces -/

/-- **The reads deliver pieces of these sizes** until a number of bytes has come, or more. -/
inductive InPieces : (ℕ → ReadChoice) → List UInt8 → ℕ → List ℕ → Prop
  | done (reads : ℕ → ReadChoice) (stream : List UInt8) : InPieces reads stream 0 []
  | read {reads : ℕ → ReadChoice} {stream piece rest : List UInt8} {count : ℕ} {sizes : List ℕ}
      (hcount : 0 < count) (hread : readSocket (reads 0) recvBufSize stream = some (piece, rest))
      (hpiece : piece ≠ []) (hmore : InPieces (fun i => reads (i + 1)) rest (count - piece.length)
        sizes) : InPieces reads stream count (piece.length :: sizes)

/-- What the writes make of a stream that is delivered in pieces of the sizes. -/
def written : (ℕ → ℕ) → List ℕ → List UInt8 → List UInt8
  | _, [], _ => []
  | writes, size :: sizes, stream =>
      (stream.take size).take (writes 0) ++
        written (fun i => writes (i + 1)) sizes (stream.drop size)

/-- **Each piece is written whole.** -/
def WrittenWhole (writes : ℕ → ℕ) (sizes : List ℕ) : Prop :=
  ∀ i size, sizes[i]? = some size → size ≤ writes i

/-- A `read` takes its bytes off the front of the stream. -/
theorem readSocket_split {choice : ReadChoice} {count : ℕ} {stream piece rest : List UInt8}
    (h : readSocket choice count stream = some (piece, rest)) : stream = piece ++ rest := by
  unfold readSocket at h
  split at h
  · cases h
  · cases h
    exact (List.take_append_drop _ _).symm

section Turn

variable {reads : ℕ → ReadChoice} {stream : List UInt8} {count : ℕ} (hcount : 0 < count)
include hcount

/-- A `read` that fails, or finds the end, delivers no piece. -/
theorem not_inPieces (hread : ∀ piece rest,
    readSocket (reads 0) recvBufSize stream = some (piece, rest) → piece = []) (sizes : List ℕ) :
    ¬ InPieces reads stream count sizes := by
  intro h
  cases h with
  | done => omega
  | read _ hread' hpiece _ => exact hpiece (hread _ _ hread')

/-- A `read` that delivers a piece delivers the first one. -/
theorem inPieces_iff {piece rest : List UInt8}
    (hread : readSocket (reads 0) recvBufSize stream = some (piece, rest)) (hpiece : piece ≠ [])
    (sizes : List ℕ) :
    InPieces reads stream count sizes ↔ ∃ more, sizes = piece.length :: more ∧
      InPieces (fun i => reads (i + 1)) rest (count - piece.length) more := by
  constructor
  · intro h
    cases h with
    | done => omega
    | read _ hread' _ hmore =>
        rw [hread] at hread'
        cases hread'
        exact ⟨_, rfl, hmore⟩
  · rintro ⟨more, rfl, hmore⟩
    exact .read hcount hread hpiece hmore

end Turn

/-- **The pieces are told by the reads.** -/
theorem InPieces.unique {reads : ℕ → ReadChoice} {stream : List UInt8} {count : ℕ}
    {sizes sizes' : List ℕ} (h : InPieces reads stream count sizes)
    (h' : InPieces reads stream count sizes') : sizes = sizes' := by
  induction h generalizing sizes' with
  | done => cases h' with
    | done => rfl
    | read hcount => omega
  | read hcount hread hpiece _ ih =>
      obtain ⟨more, rfl, hmore⟩ := (inPieces_iff hcount hread hpiece sizes').1 h'
      rw [ih hmore]

/-- The pieces are of the stream, and there are enough of them. -/
theorem InPieces.sum {reads : ℕ → ReadChoice} {stream : List UInt8} {count : ℕ} {sizes : List ℕ}
    (h : InPieces reads stream count sizes) : count ≤ sizes.sum ∧ sizes.sum ≤ stream.length := by
  induction h with
  | done => exact ⟨le_rfl, Nat.zero_le _⟩
  | read hcount hread _ _ ih =>
      have hlen := (length_readSocket hread).1
      rw [List.sum_cons]
      omega

theorem writtenWhole_cons (writes : ℕ → ℕ) (size : ℕ) (sizes : List ℕ) :
    WrittenWhole writes (size :: sizes) ↔
      size ≤ writes 0 ∧ WrittenWhole (fun i => writes (i + 1)) sizes := by
  constructor
  · intro h
    exact ⟨h 0 size rfl, fun i s hi => h (i + 1) s hi⟩
  · rintro ⟨hfirst, hrest⟩ i s hi
    cases i with
    | zero => cases hi; exact hfirst
    | succ i => exact hrest i s hi

theorem length_written_le (writes : ℕ → ℕ) (sizes : List ℕ) (stream : List UInt8) :
    (written writes sizes stream).length ≤ sizes.sum := by
  induction sizes generalizing writes stream with
  | nil => exact le_rfl
  | cons size sizes ih =>
      have hrest := ih (fun i => writes (i + 1)) (stream.drop size)
      rw [written, List.length_append, List.sum_cons, List.length_take, List.length_take]
      omega

/-- **The file is a part of the stream exactly if each piece was written whole.** -/
theorem written_eq_take_iff (writes : ℕ → ℕ) {sizes : List ℕ} {stream : List UInt8}
    (h : sizes.sum ≤ stream.length) :
    written writes sizes stream = stream.take sizes.sum ↔ WrittenWhole writes sizes := by
  induction sizes generalizing writes stream with
  | nil => exact iff_of_true rfl fun i size hi => by cases hi
  | cons size sizes ih =>
      rw [List.sum_cons] at h
      have hrest : sizes.sum ≤ (stream.drop size).length := by
        rw [List.length_drop]
        omega
      rw [writtenWhole_cons, ← ih _ hrest, written, List.sum_cons, List.take_add]
      by_cases hwhole : size ≤ writes 0
      · have htake : (stream.take size).take (writes 0) = stream.take size := by
          rw [List.take_take, min_eq_right hwhole]
        rw [htake, List.append_cancel_left_eq, and_iff_right hwhole]
      · refine iff_of_false (fun heq => ?_) fun hall => hwhole hall.1
        -- the file is too short
        have hlen := congrArg List.length heq
        have hshort := length_written_le (fun i => writes (i + 1)) sizes (stream.drop size)
        rw [List.length_append, List.length_append, List.length_take, List.length_take,
          List.length_take, List.length_drop] at hlen
        omega

/-! ### The loop -/

/-- **What the loop does**: when the reads deliver the bytes it is to count down, it returns
`RET_OK` with the pieces taken and written, and else it fails. -/
theorem receiveHexFileLoop_spec {fuel : ℕ} {thiz : Reprogrammer}
    (hfuel : thiz.pending.length < fuel) (hexFileLen : ℤ) (reads : ℕ → ReadChoice)
    (writes : ℕ → ℕ) :
    (∃ sizes, InPieces reads thiz.pending hexFileLen.toNat sizes ∧
        receiveHexFileLoop fuel thiz hexFileLen reads writes = .ok (.ok,
          { thiz with pending := thiz.pending.drop sizes.sum
                      file := thiz.file ++ written writes sizes thiz.pending })) ∨
      (∀ sizes, ¬ InPieces reads thiz.pending hexFileLen.toNat sizes) ∧
        ∃ thiz', receiveHexFileLoop fuel thiz hexFileLen reads writes = .ok (.fail, thiz') := by
  induction fuel generalizing thiz hexFileLen reads writes with
  | zero => omega
  | succ fuel ih =>
      rw [receiveHexFileLoop]
      by_cases hpos : 0 < hexFileLen
      · have hcount : 0 < hexFileLen.toNat := by omega
        rw [if_pos hpos]
        cases hread : readSocket (reads 0) recvBufSize thiz.pending with
        | none => exact Or.inr ⟨not_inPieces hcount (by simp [hread]), thiz, rfl⟩
        | some r =>
            obtain ⟨_ | ⟨b, bs⟩, rest⟩ := r
            · exact Or.inr ⟨not_inPieces hcount (by simp [hread]), _, rfl⟩
            · have hpieces := inPieces_iff hcount hread (List.cons_ne_nil b bs)
              have hlen := (length_readSocket hread).1
              have hsplit := readSocket_split hread
              rw [List.length_cons] at hlen
              have hleft : (hexFileLen - (b :: bs).length).toNat =
                  hexFileLen.toNat - (b :: bs).length := by omega
              rcases @ih
                  { thiz with pending := rest, file := thiz.file ++ (b :: bs).take (writes 0) }
                  (by simp only; omega) (hexFileLen - (b :: bs).length) (fun i => reads (i + 1))
                  (fun i => writes (i + 1)) with ⟨sizes, hsizes, hrun⟩ | ⟨hnone, thiz', hrun⟩
              · rw [hleft] at hsizes
                refine Or.inl ⟨_, (hpieces _).2 ⟨sizes, rfl, hsizes⟩, hrun.trans ?_⟩
                have hdrop : thiz.pending.drop (b :: bs).length = rest := by
                  rw [hsplit, List.drop_left]
                have htake : thiz.pending.take (b :: bs).length = b :: bs := by
                  rw [hsplit, List.take_left]
                rw [written, List.sum_cons, ← List.drop_drop, hdrop, htake, List.append_assoc]
              · refine Or.inr ⟨fun sizes h => ?_, thiz', hrun⟩
                obtain ⟨more, -, hmore⟩ := (hpieces sizes).1 h
                rw [← hleft] at hmore
                exact hnone more hmore
      · have hzero : hexFileLen.toNat = 0 := by omega
        rw [if_neg hpos, hzero]
        refine Or.inl ⟨[], .done _ _, ?_⟩
        rw [written, List.append_nil]
        rfl

/-! ### A success -/

/-- **Reception is exact**: with `RET_OK` the file holds the declared number of bytes from the front
of the stream, and no other byte of it has been consumed. -/
def ReceivedExactly (thiz : Reprogrammer) (len : UInt32) (env : ReprogEnv) : Prop :=
  ∀ thiz', reprogrammerReceiveHexFile thiz (toInt len.toNat) env = .ok (.ok, thiz') →
    len.toNat ≤ thiz.pending.length ∧ thiz'.file = thiz.pending.take len.toNat ∧
      thiz'.pending = thiz.pending.drop len.toNat

/-- **The pieces end with the declared length**, if they reach it, and each is written whole. -/
def ExactPieces (len : ℕ) (reads : ℕ → ReadChoice) (writes : ℕ → ℕ) (stream : List UInt8) : Prop :=
  ∀ sizes, InPieces reads stream len sizes → sizes.sum = len ∧ WrittenWhole writes sizes

theorem toInt_toNat {len : UInt32} (h : len.toNat < 2 ^ 31) :
    (toInt len.toNat).toNat = len.toNat := by
  have hle : len.toNat ≤ intMax := by
    rw [intMax]
    omega
  rw [toInt, if_pos hle, Int.toNat_natCast]

/-- From `2 ^ 31` on a length is negative as an `int`. -/
theorem toInt_toNat_of_le {len : UInt32} (h : 2 ^ 31 ≤ len.toNat) :
    (toInt len.toNat).toNat = 0 := by
  have hlt := len.toNat_lt
  have hle : ¬ len.toNat ≤ intMax := by
    rw [intMax]
    omega
  rw [toInt, if_neg hle]
  omega

section Success

variable {thiz : Reprogrammer} {len : UInt32} {env : ReprogEnv} (hopen : env.fileOpens = true)
include hopen

/-- A call that opens the file is its loop. -/
theorem reprogrammerReceiveHexFile_of_opens :
    (∃ sizes, InPieces env.reads thiz.pending (toInt len.toNat).toNat sizes ∧
        reprogrammerReceiveHexFile thiz (toInt len.toNat) env = .ok (.ok,
          { thiz with hexFd := .opened, pending := thiz.pending.drop sizes.sum
                      file := written env.writes sizes thiz.pending })) ∨
      (∀ sizes, ¬ InPieces env.reads thiz.pending (toInt len.toNat).toNat sizes) ∧
        ∃ thiz', reprogrammerReceiveHexFile thiz (toInt len.toNat) env = .ok (.fail, thiz') := by
  rw [reprogrammerReceiveHexFile, if_pos hopen]
  have hfuel : ({ thiz with hexFd := .opened, file := [] } : Reprogrammer).pending.length <
      thiz.pending.length + 1 := Nat.lt_succ_self _
  have hspec := receiveHexFileLoop_spec hfuel (toInt len.toNat) env.reads env.writes
  simpa only [List.nil_append] using hspec

/-- **A length below `2 ^ 31`** is received exactly if the pieces are. -/
theorem receivedExactly_of_lt (hlen : len.toNat < 2 ^ 31) :
    ReceivedExactly thiz len env ↔
      ExactPieces len.toNat env.reads env.writes thiz.pending := by
  have hrun := @reprogrammerReceiveHexFile_of_opens thiz len env hopen
  rw [toInt_toNat hlen] at hrun
  rcases hrun with ⟨sizes, hsizes, hrun⟩ | ⟨hnone, thiz', hrun⟩
  · obtain ⟨hreach, hle⟩ := hsizes.sum
    constructor
    · intro hexact sizes' hsizes'
      obtain ⟨hpending, hfile, hdrop⟩ := hexact _ hrun
      have hlength := congrArg List.length hdrop
      rw [List.length_drop, List.length_drop] at hlength
      have hsum : sizes.sum = len.toNat := by omega
      rw [← hsum] at hfile
      rw [hsizes'.unique hsizes]
      exact ⟨hsum, (written_eq_take_iff env.writes hle).1 hfile⟩
    · intro hpieces thiz' hok
      obtain ⟨hsum, hwhole⟩ := hpieces sizes hsizes
      rw [hrun] at hok
      cases hok
      rw [← hsum]
      exact ⟨hle, (written_eq_take_iff env.writes hle).2 hwhole, rfl⟩
  · refine iff_of_true ?_ fun sizes hsizes => absurd hsizes (hnone sizes)
    intro thiz'' hok
    rw [hrun] at hok
    cases hok

/-- **A length from `2 ^ 31` on** is received at once, with nothing read. -/
theorem not_receivedExactly_of_le (hlen : 2 ^ 31 ≤ len.toNat) : ¬ ReceivedExactly thiz len env := by
  have hrun := @reprogrammerReceiveHexFile_of_opens thiz len env hopen
  rw [toInt_toNat_of_le hlen] at hrun
  have hdone := InPieces.done env.reads thiz.pending
  rcases hrun with ⟨sizes, hsizes, hrun⟩ | ⟨hnone, -⟩
  · intro hexact
    obtain ⟨hpending, hfile, -⟩ := hexact _ hrun
    rw [hsizes.unique hdone] at hfile
    have hlength := congrArg List.length hfile
    rw [written, List.length_nil, List.length_take] at hlength
    omega
  · exact absurd hdone (hnone [])

end Success

/-- **When a success means that the file was received**: the file does not open, or the length is
positive as an `int` and the pieces end with it. -/
theorem receivedExactly_iff (thiz : Reprogrammer) (len : UInt32) (env : ReprogEnv) :
    ReceivedExactly thiz len env ↔ env.fileOpens = false ∨
      len.toNat < 2 ^ 31 ∧ ExactPieces len.toNat env.reads env.writes thiz.pending := by
  by_cases hopen : env.fileOpens = true
  · have hfalse : ¬ env.fileOpens = false := by simp [hopen]
    rw [or_iff_right hfalse]
    rcases Nat.lt_or_ge len.toNat (2 ^ 31) with hlt | hge
    · rw [receivedExactly_of_lt hopen hlt, and_iff_right hlt]
    · exact iff_of_false (not_receivedExactly_of_le hopen hge) fun h => by omega
  · refine iff_of_true ?_ (Or.inl (Bool.eq_false_of_not_eq_true hopen))
    intro thiz' hok
    rw [reprogrammerReceiveHexFile, if_neg hopen] at hok
    cases hok

/-- Every write fails: `fopen` gives a `FILE *`, which is not a descriptor. -/
def refusedWrites : ReprogEnv := { goodEnv with writes := fun _ => 0 }

/-- **A file of one byte** is received as an empty one, and the byte behind it is taken from the
stream; one of four gigabytes is received with nothing read. -/
theorem receivedExactly_fails :
    ¬ ReceivedExactly { reprogrammerCreate with pending := [65, 66] } 1 refusedWrites ∧
      reprogrammerReceiveHexFile { reprogrammerCreate with pending := [65, 66] }
          (toInt (1 : UInt32).toNat) refusedWrites =
        .ok (.ok, { reprogrammerCreate with hexFd := .opened, pending := [], file := [] }) ∧
      reprogrammerReceiveHexFile { reprogrammerCreate with pending := [65, 66] }
          (toInt (4294967295 : UInt32).toNat) refusedWrites =
        .ok (.ok,
          { reprogrammerCreate with hexFd := .opened, pending := [65, 66], file := [] }) := by
  have hrun : reprogrammerReceiveHexFile { reprogrammerCreate with pending := [65, 66] }
      (toInt (1 : UInt32).toNat) refusedWrites =
        .ok (.ok, { reprogrammerCreate with hexFd := .opened, pending := [], file := [] }) :=
    rfl
  refine ⟨?_, hrun, rfl⟩
  intro hexact
  obtain ⟨-, hfile, -⟩ := hexact _ hrun
  cases hfile

end Wsn
