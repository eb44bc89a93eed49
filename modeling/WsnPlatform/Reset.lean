/-
**Clearing the object: `packet_transfer_reset`.**

Abstractly, a reset forgets every outstanding command, and frees each once.  The loop that should
delete the commands of list `i` counts with `j`, but tests `i < size`: it is left at once when the
list has at most `i` commands, and never otherwise.

Main definitions:

* `Wsn.ClearsAll` — a reset that does what it should.

Main results:

* `Wsn.resetInner_eq_ok`, `Wsn.resetLists_eq_ok` — when the loops are left, and what they do then;
* `Wsn.clearsAll_iff_empty` — **a reset clears the lists exactly when they are empty**.
-/

import WsnPlatform.PacketTransferCalls

set_option relaxedAutoImplicit false
set_option autoImplicit false

namespace Wsn

open FaultRun

/-! ### What a reset should do -/

/-- **A reset returns with every list empty**, every command that was on a list freed once, the
response zero and the connection closed. -/
def ClearsAll (thiz : PacketTransfer) : Prop :=
  ∃ thiz' cells freed, packetTransferReset thiz = .ok (.ok, thiz') ∧
    (∀ i, ∃ l, thiz'.commandSet i = some l ∧ l.Represents thiz'.mem []) ∧
    Holds thiz.mem thiz.commandSet cells ∧
    thiz'.mem.destroyed = thiz.mem.destroyed ++ freed ∧
    freed.Perm ((List.finRange nodeNum).flatMap fun i => (cells i).map Prod.snd) ∧
    thiz'.response = .zero ∧ thiz'.uploaderSocket = -1

/-! ### The loops -/

/-- **The inner loop** is left only before its first round. -/
theorem resetInner_eq_ok {i : ℕ} {size : ℤ} (left : ℕ) : ∀ {mem : Mem Command}
    {list : Option DList} {r : Mem Command × Option DList},
    resetInner i size left mem list = .ok r ↔ ¬ (i : ℤ) < size ∧ r = (mem, list) := by
  induction left with
  | zero =>
      intro mem list r
      rw [resetInner]
      by_cases hi : (i : ℤ) < size
      · rw [if_pos hi]
        cases dlistDelete mem list intMax with
        | error e => simp [hi]
        | ok o => simp [hi]
      · rw [if_neg hi, Except.ok.injEq, eq_comm]
        exact (and_iff_right hi).symm
  | succ left ih =>
      intro mem list r
      rw [resetInner]
      by_cases hi : (i : ℤ) < size
      · rw [if_pos hi]
        cases dlistDelete mem list (intMax - (left + 1)) with
        | error e => simp [hi]
        | ok o =>
            -- the condition does not change, so the next round is no different
            rw [ok_bind, ih]
            simp [hi]
      · rw [if_neg hi, Except.ok.injEq, eq_comm]
        exact (and_iff_right hi).symm

/-- **The outer loop** returns when list `i` has at most `i` commands, and then deletes nothing. -/
theorem resetLists_eq_ok (is : List (Fin nodeNum)) : ∀ {thiz thiz' : PacketTransfer},
    resetLists is thiz = .ok thiz' ↔
      (∀ i ∈ is, ∃ l, thiz.commandSet i = some l ∧ ¬ (i.1 : ℤ) < toInt l.length) ∧
        thiz' = thiz := by
  induction is with
  | nil =>
      intro thiz thiz'
      rw [resetLists, Except.ok.injEq, eq_comm]
      exact (and_iff_right (List.forall_mem_nil _)).symm
  | cons i is ih =>
      intro thiz thiz'
      rw [List.forall_mem_cons, and_assoc]
      cases hset : thiz.commandSet i with
      | none =>
          rw [resetLists, hset, dlistLength, error_bind]
          refine iff_of_false (ok_ne_error _ _).symm ?_
          rintro ⟨⟨l, hl, -⟩, -⟩
          cases hl
      | some l =>
          have hsame : Function.update thiz.commandSet i (some l) = thiz.commandSet := by
            rw [← hset, Function.update_eq_self]
          rw [resetLists, hset, dlistLength, ok_bind, bind_eq_ok]
          constructor
          · rintro ⟨r, hinner, hrest⟩
            obtain ⟨hi, rfl⟩ := (resetInner_eq_ok _).1 hinner
            rw [hsame] at hrest
            exact ⟨⟨l, rfl, hi⟩, ih.1 hrest⟩
          · rintro ⟨⟨l', hl', hi⟩, hrest⟩
            cases hl'
            refine ⟨(thiz.mem, some l), (resetInner_eq_ok _).2 ⟨hi, rfl⟩, ?_⟩
            rw [hsame]
            exact ih.2 hrest

/-! ### The reset -/

/-- What is left to do behind the loops. -/
def closeAndZero (thiz : PacketTransfer) : PacketTransfer :=
  let thiz := { thiz with response := .zero }
  let thiz := if thiz.uploaderSocket ≠ -1 then
    { thiz with closed := thiz.closed ++ [thiz.uploaderSocket] } else thiz
  { thiz with uploaderSocket := -1 }

/-- It has nothing to do with the lists. -/
theorem closeAndZero_held (thiz : PacketTransfer) :
    (closeAndZero thiz).commandSet = thiz.commandSet ∧ (closeAndZero thiz).mem = thiz.mem ∧
      (closeAndZero thiz).response = .zero ∧ (closeAndZero thiz).uploaderSocket = -1 := by
  unfold closeAndZero
  dsimp only
  split
  · exact ⟨rfl, rfl, rfl, rfl⟩
  · exact ⟨rfl, rfl, rfl, rfl⟩

/-- **A reset** returns when list `i` has at most `i` commands, and deletes nothing. -/
theorem packetTransferReset_eq_ok {thiz : PacketTransfer} {r : Ret × PacketTransfer} :
    packetTransferReset thiz = .ok r ↔
      (∀ i, ∃ l, thiz.commandSet i = some l ∧ ¬ (i.1 : ℤ) < toInt l.length) ∧
        r = (.ok, closeAndZero thiz) := by
  have hrun : packetTransferReset thiz = (do
      let thiz ← resetLists (List.finRange nodeNum) thiz
      .ok (.ok, closeAndZero thiz)) := rfl
  rw [hrun, bind_eq_ok]
  constructor
  · rintro ⟨thiz', hlists, hret⟩
    obtain ⟨hall, rfl⟩ := (resetLists_eq_ok _).1 hlists
    cases hret
    exact ⟨fun i => hall i (List.mem_finRange i), rfl⟩
  · rintro ⟨hall, rfl⟩
    exact ⟨thiz, (resetLists_eq_ok _).2 ⟨fun i _ => hall i, rfl⟩, rfl⟩

/-- A reset that clears everything finds nothing to clear. -/
theorem ClearsAll.empty {thiz : PacketTransfer} (h : ClearsAll thiz) (i : Fin nodeNum) :
    ∃ l, thiz.commandSet i = some l ∧ l.length = 0 := by
  obtain ⟨thiz', cells, freed, hreset, hempty, -⟩ := h
  obtain ⟨-, hret⟩ := packetTransferReset_eq_ok.1 hreset
  cases hret
  obtain ⟨hset, -⟩ := closeAndZero_held thiz
  obtain ⟨l, hl, hrep⟩ := hempty i
  rw [hset] at hl
  exact ⟨l, hl, hrep.length⟩

/-- **A reset clears the lists exactly when they are empty**, and exist. -/
theorem clearsAll_iff_empty {board : GatherBoard} {lists : Fin nodeNum → Bool}
    (thiz : Reached board lists) :
    ClearsAll thiz.1 ↔ ∀ i, ∃ l, thiz.1.commandSet i = some l ∧ l.length = 0 := by
  refine ⟨ClearsAll.empty, fun hempty => ?_⟩
  obtain ⟨cells, hcells⟩ := thiz.sound.holds
  obtain ⟨hset, hmem, hresponse, hsocket⟩ := closeAndZero_held thiz.1
  have hnil : ∀ i, cells i = [] := by
    intro i
    obtain ⟨l, hl, hlen⟩ := hempty i
    exact List.length_eq_zero_iff.1 ((hcells.lists i l hl).2.length ▸ hlen)
  refine ⟨closeAndZero thiz.1, cells, [], packetTransferReset_eq_ok.2 ⟨fun i => ?_, rfl⟩,
    fun i => ?_, hcells, ?_, ?_, hresponse, hsocket⟩
  · obtain ⟨l, hl, hlen⟩ := hempty i
    refine ⟨l, hl, ?_⟩
    rw [hlen, toInt, if_pos (Nat.zero_le _)]
    exact not_lt.2 (Int.natCast_nonneg _)
  · obtain ⟨l, hl, -⟩ := hempty i
    rw [hset, hmem]
    exact ⟨l, hl, hnil i ▸ (hcells.lists i l hl).2⟩
  · rw [hmem, List.append_nil]
  · have hnone : (List.finRange nodeNum).flatMap (fun i => (cells i).map Prod.snd) = [] :=
      List.flatMap_eq_nil_iff.2 fun i _ => by rw [hnil i]; rfl
    rw [hnone]

/-- The host sends one command for the first port, and it is received whole. -/
def oneCommand : List Event :=
  [.connect 4 (0 :: 13 :: 1 :: List.replicate 12 0),
    .command ⟨some ⟨List.Vector.replicate 2 0, List.Vector.replicate cmdBPacketMaxSize 0⟩,
      .bytes 2, .bytes cmdBPacketMaxSize, some ⟨0, by decide⟩⟩]

/-- The reset behind it deletes the command and then goes on to delete from an empty list. -/
theorem oneCommand_not_cleared :
    ∃ tr thiz, trace PacketTransfer.step (packetTransferCreate willingBoard fun _ => true)
        oneCommand = .ok (tr, thiz) ∧
      packetTransferReset thiz = .error .nullDeref ∧ ¬ ClearsAll thiz := by
  refine ⟨_, _, rfl, rfl, fun h => ?_⟩
  obtain ⟨l, hl, hlen⟩ := h.empty ⟨0, by decide⟩
  cases hl
  cases hlen

end Wsn
