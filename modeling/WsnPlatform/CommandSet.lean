/-
**The commands that wait for a response.**

Abstractly, every port has a queue of outstanding commands: a command of the host joins the queue of
its port, and a response takes out the earliest command that it answers.  `packet_transfer.c` keeps
the queues in eight doubly linked lists that share the memory of their nodes.  This module says what
the lists hold, and when the program keeps them in step with the queues.

Main definitions:

* `Wsn.Holds` — the lists in memory hold given nodes, each list its own;
* `Wsn.Outstanding` — the queues, with the node of each command;
* `Wsn.SetCall`, `Wsn.setStep`, `Wsn.Outstanding.step` — a call of `handle_command` or
  `handle_response`, on the program and on the queues;
* `Wsn.Answerable` — every response finds a queue that is not empty.

Main results:

* `Wsn.Holds.append`, `Wsn.Holds.delete` — the operations on one list leave the others alone;
* `Wsn.handleCommand_spec`, `Wsn.handleResponse_spec`, `Wsn.handleResponse_empty` — one call;
* `Wsn.accounted_iff` — **the lists follow the queues exactly when every response is answerable**.
-/

import WsnPlatform.FaultRun
import WsnPlatform.PacketTransfer

set_option relaxedAutoImplicit false
set_option autoImplicit false

namespace Wsn

open FaultRun

/-! ### What the lists hold -/

/-- The nodes of the eight lists: the place of each and the command it points to. -/
abbrev Outstanding := Fin nodeNum → List (Addr × Command)

/-- **The lists hold the given nodes.**  Every list that exists has `command_destroy_cb` as its
callback, no two lists share a node, and every node in memory belongs to a list. -/
structure Holds (m : Mem Command) (set : Fin nodeNum → Option DList) (cells : Outstanding) :
    Prop where
  lists : ∀ i l, set i = some l → l.dataDestroy = true ∧ l.Represents m (cells i)
  missing : ∀ i, set i = none → cells i = []
  disjoint : ∀ i j a, a ∈ (cells i).map Prod.fst → a ∈ (cells j).map Prod.fst → i = j
  used : ∀ a, m.nodes a ≠ none → ∃ i, a ∈ (cells i).map Prod.fst

theorem holds_create (board : GatherBoard) (lists : Fin nodeNum → Bool) :
    Holds (packetTransferCreate board lists).mem (packetTransferCreate board lists).commandSet
      fun _ => [] := by
  refine ⟨?_, fun _ _ => rfl, fun i j a ha => (by cases ha), fun a ha => absurd rfl ha⟩
  intro i l hl
  simp only [packetTransferCreate] at hl
  split at hl
  · cases hl
    exact ⟨rfl, represents_create _ _⟩
  · cases hl

/-- The memory determines what the lists hold. -/
theorem Holds.unique {m : Mem Command} {set : Fin nodeNum → Option DList}
    {cells cells₂ : Outstanding} (h : Holds m set cells) (h₂ : Holds m set cells₂) :
    cells = cells₂ := by
  funext i
  cases hset : set i with
  | none => rw [h.missing i hset, h₂.missing i hset]
  | some l => exact (h.lists i l hset).2.unique (h₂.lists i l hset).2

section OneList

variable {m : Mem Command} {set : Fin nodeNum → Option DList} {cells : Outstanding}
  {i : Fin nodeNum} {l : DList}

/-- A place is free when no list has a node there. -/
theorem Holds.free_iff (h : Holds m set cells) {a : Addr} :
    m.nodes a = none ↔ ∀ i, a ∉ (cells i).map Prod.fst := by
  constructor
  · intro ha i hi
    cases hset : set i with
    | none =>
        rw [h.missing i hset] at hi
        cases hi
    | some l => exact (h.lists i l hset).2.mem_store hi ha
  · intro ha
    by_contra hne
    obtain ⟨i, hi⟩ := h.used a hne
    exact ha i hi

/-- Changing the nodes of one list and places that no other list uses. -/
theorem Holds.update (h : Holds m set cells) {m' : Mem Command} {l' : DList}
    {cells' : List (Addr × Command)} (hl' : l'.dataDestroy = true)
    (hrep : l'.Represents m' cells')
    (hsame : ∀ j, j ≠ i → ∀ a ∈ (cells j).map Prod.fst, m'.nodes a = m.nodes a)
    (hdisj : ∀ j, j ≠ i → ∀ a ∈ (cells j).map Prod.fst, a ∉ cells'.map Prod.fst)
    (hused : ∀ a, m'.nodes a ≠ none → a ∈ cells'.map Prod.fst ∨
      ∃ j, j ≠ i ∧ a ∈ (cells j).map Prod.fst) :
    Holds m' (Function.update set i (some l')) (Function.update cells i cells') := by
  refine ⟨?_, ?_, ?_, ?_⟩
  · intro j k hk
    by_cases hji : j = i
    · subst hji
      rw [Function.update_self] at hk ⊢
      cases hk
      exact ⟨hl', hrep⟩
    · rw [Function.update_of_ne hji] at hk ⊢
      exact ⟨(h.lists j k hk).1, (h.lists j k hk).2.congr (hsame j hji)⟩
  · intro j hj
    by_cases hji : j = i
    · subst hji
      rw [Function.update_self] at hj
      cases hj
    · rw [Function.update_of_ne hji] at hj ⊢
      exact h.missing j hj
  · intro j k a hj hk
    by_cases hji : j = i
    · by_cases hki : k = i
      · rw [hji, hki]
      · rw [hji, Function.update_self] at hj
        rw [Function.update_of_ne hki] at hk
        exact absurd hj (hdisj k hki a hk)
    · rw [Function.update_of_ne hji] at hj
      by_cases hki : k = i
      · rw [hki, Function.update_self] at hk
        exact absurd hk (hdisj j hji a hj)
      · rw [Function.update_of_ne hki] at hk
        exact h.disjoint j k a hj hk
  · intro a ha
    rcases hused a ha with ha | ⟨j, hji, ha⟩
    · exact ⟨i, by rwa [Function.update_self]⟩
    · exact ⟨j, by rwa [Function.update_of_ne hji]⟩

/-- **Appending to one list** leaves the others alone. -/
theorem Holds.append (h : Holds m set cells) (hset : set i = some l) {a : Addr}
    (ha : m.nodes a = none) (c : Command) :
    ∃ m' l', dlistAppend m (some l) (some a) c = .ok (.ok, m', some l') ∧
      Holds m' (Function.update set i (some l'))
        (Function.update cells i (cells i ++ [(a, c)])) ∧ m'.destroyed = m.destroyed := by
  obtain ⟨hdestroy, hrep⟩ := h.lists i l hset
  obtain ⟨m', l', hrun, hrep', hdestroy', hdes, hframe⟩ := dlistAppend_spec hrep ha c
  have hnew : ∀ b, b ∈ (cells i ++ [(a, c)]).map Prod.fst ↔
      b ∈ (cells i).map Prod.fst ∨ b = a := by
    intro b
    simp only [List.map_append, List.map_singleton, List.mem_append, List.mem_singleton]
  have hother : ∀ j, j ≠ i → ∀ b ∈ (cells j).map Prod.fst,
      b ∉ (cells i ++ [(a, c)]).map Prod.fst := by
    intro j hji b hb hbad
    rcases (hnew b).1 hbad with hbi | rfl
    · exact hji (h.disjoint j i b hb hbi)
    · exact h.free_iff.1 ha j hb
  refine ⟨m', l', hrun, h.update (hdestroy'.trans hdestroy) hrep' ?_ hother ?_, hdes⟩
  · exact fun j hji b hb => hframe b (hother j hji b hb)
  · intro b hb
    by_cases hmem : b ∈ (cells i ++ [(a, c)]).map Prod.fst
    · exact Or.inl hmem
    · rw [hframe b hmem] at hb
      obtain ⟨j, hj⟩ := h.used b hb
      refine Or.inr ⟨j, ?_, hj⟩
      rintro rfl
      exact hmem ((hnew b).2 (Or.inl hj))

/-- **Deleting from one list** leaves the others alone, and frees the command. -/
theorem Holds.delete (h : Holds m set cells) (hset : set i = some l)
    {pre post : List (Addr × Command)} {c : Addr × Command} (hcells : cells i = pre ++ c :: post) :
    ∃ m' l', dlistDelete m (some l) pre.length = .ok (.ok, m', some l') ∧
      Holds m' (Function.update set i (some l')) (Function.update cells i (pre ++ post)) ∧
      m'.destroyed = m.destroyed ++ [c.2] := by
  obtain ⟨hdestroy, hrep⟩ := h.lists i l hset
  rw [hcells] at hrep
  obtain ⟨m', l', hrun, hrep', hdestroy', hdes, hfree, hframe⟩ := dlistDelete_spec hrep
  rw [hdestroy, if_pos rfl] at hdes
  have hold : ∀ b, b ∈ (pre ++ c :: post).map Prod.fst ↔
      b ∈ (pre ++ post).map Prod.fst ∨ b = c.1 := by
    intro b
    simp only [List.map_append, List.map_cons, List.mem_append, List.mem_cons]
    tauto
  have hother : ∀ j, j ≠ i → ∀ b ∈ (cells j).map Prod.fst,
      b ∉ (pre ++ c :: post).map Prod.fst := by
    intro j hji b hb hbad
    exact hji (h.disjoint j i b hb (hcells ▸ hbad))
  refine ⟨m', l', hrun, h.update (hdestroy'.trans hdestroy) hrep' ?_ ?_ ?_, hdes⟩
  · exact fun j hji b hb => hframe b (hother j hji b hb)
  · exact fun j hji b hb hbad => hother j hji b hb ((hold b).2 (Or.inl hbad))
  · intro b hb
    by_cases hmem : b ∈ (pre ++ c :: post).map Prod.fst
    · rcases (hold b).1 hmem with hb' | rfl
      · exact Or.inl hb'
      · exact absurd hfree hb
    · rw [hframe b hmem] at hb
      obtain ⟨j, hj⟩ := h.used b hb
      refine Or.inr ⟨j, ?_, hj⟩
      rintro rfl
      exact hmem (hcells ▸ hj)

end OneList

/-! ### One call, on the program -/

/-- A command for one of the ports 0 to 7. -/
abbrev PortCommand := { c : Command // c.portId.toNat < nodeNum }

/-- A completed response of one of the ports 0 to 7. -/
abbrev PortResponse := { r : Response // r.portId.toNat < nodeNum }

def PortCommand.port (c : PortCommand) : Fin nodeNum := ⟨c.1.portId.toNat, c.2⟩

def PortResponse.port (r : PortResponse) : Fin nodeNum := ⟨r.1.portId.toNat, r.2⟩

/-- A call that changes the lists. -/
inductive SetCall
  /-- `handle_command`, with what the `malloc` of the list node returns. -/
  | command (c : PortCommand) (place : Option Addr)
  /-- `handle_response`, when the response is complete. -/
  | response (r : PortResponse)

/-- **The call, as the program makes it.** -/
def setStep (thiz : PacketTransfer) : SetCall → Exec (Unit × PacketTransfer)
  | .command c place => do
      let r ← handleCommand thiz c.1 place
      .ok ((), r.2)
  | .response r => do
      let thiz ← handleResponse { thiz with response := r.1 }
      .ok ((), thiz)

/-! ### One call, on the queues -/

/-- Whether a place is taken by the node of a command. -/
def Outstanding.Uses (cells : Outstanding) (a : Addr) : Prop := ∃ i, a ∈ (cells i).map Prod.fst

instance (cells : Outstanding) (a : Addr) : Decidable (cells.Uses a) :=
  inferInstanceAs (Decidable (∃ i, a ∈ (cells i).map Prod.fst))

/-- **The call, as the queues should see it.**  A command that waits for a response joins the queue
of its port, if there is memory for a node; a response of type `t` takes out the earliest command of
type `t + 0x20`. -/
def Outstanding.step (cells : Outstanding) : SetCall → Outstanding
  | .command c place =>
      match place with
      | none => cells
      | some a =>
          if c.1.type = nodePayloadTypeCmdPowerSwitch ∨ cells.Uses a then cells
          else Function.update cells c.port (cells c.port ++ [(a, c.1)])
  | .response r =>
      Function.update cells r.port
        ((cells r.port).eraseP fun q => q.2.type == r.1.type + 0x20)

/-- **Every response finds a queue that is not empty.** -/
def Answerable : Outstanding → List SetCall → Prop
  | _, [] => True
  | cells, .command c place :: calls => Answerable (cells.step (.command c place)) calls
  | cells, .response r :: calls =>
      cells r.port ≠ [] ∧ Answerable (cells.step (.response r)) calls

/-! ### The calls keep the lists in step with the queues -/

theorem commandSetIndex_of_lt {portId : UInt8} (h : portId.toNat < nodeNum) :
    commandSetIndex portId = .ok ⟨portId.toNat, h⟩ := dif_pos h

theorem waitForResponse_eq (type : UInt8) : waitForResponse type = true := rfl

/-- `handle_response` but for the LED calls, which do nothing. -/
theorem handleResponse_eq (thiz : PacketTransfer) :
    handleResponse thiz = (do
      let i ← commandSetIndex thiz.response.portId
      let targetIndex ← dlistFind thiz.mem (thiz.commandSet i)
        (responseFindCb (nodeTypeConvertRespToCmd thiz.response.type))
      let r ← dlistDelete thiz.mem (thiz.commandSet i) targetIndex
      .ok { thiz with mem := r.2.1, commandSet := Function.update thiz.commandSet i r.2.2 }) := by
  unfold handleResponse
  simp only [gatherBoardLedRed, gatherBoardLedGreen, gatherBoardLedControl_eq, ok_bind]
  split <;> rfl

/-- The callback compares with the response's type plus `0x20`, modulo 256. -/
theorem responseFindCb_eq (type : UInt8) (c : Command) :
    responseFindCb (nodeTypeConvertRespToCmd type) c = (c.type == type + 0x20) := by
  have hlow : UInt8.ofNat (nodeTypeConvertRespToCmd type) = type + 0x20 := by
    rw [nodeTypeConvertRespToCmd, UInt8.ofNat_add, UInt8.ofNat_toNat]
    rfl
  rw [responseFindCb, hlow]

/-- No list appears or is lost when one is replaced. -/
theorem update_eq_none_iff {set : Fin nodeNum → Option DList} {j : Fin nodeNum} {l : DList}
    (hj : set j = some l) (l' : DList) (i : Fin nodeNum) :
    Function.update set j (some l') i = none ↔ set i = none := by
  by_cases hi : i = j
  · rw [hi, Function.update_self, hj]
    simp
  · rw [Function.update_of_ne hi]

/-! ### Which commands are kept -/

/-- A command with the port and type is put into a list: it is not a power switch command, its list
exists, and there is memory for its node. -/
def Kept (thiz : PacketTransfer) (portId type : UInt8) (place : Option Addr) : Prop :=
  type ≠ nodePayloadTypeCmdPowerSwitch ∧ ∃ i l a, commandSetIndex portId = .ok i ∧
    thiz.commandSet i = some l ∧ place = some a ∧ thiz.mem.nodes a = none

/-- **A command with the port and type is lost**: no list refers to it, although the call
returns. -/
def Lost (thiz : PacketTransfer) (portId type : UInt8) (place : Option Addr) : Prop :=
  type = nodePayloadTypeCmdPowerSwitch ∨ ∃ i, commandSetIndex portId = .ok i ∧
    ∀ l a, thiz.commandSet i = some l → place = some a → thiz.mem.nodes a ≠ none

/-- `handle_command` behind its test for a power switch command. -/
theorem handleCommand_eq (thiz : PacketTransfer) {c : Command} (place : Option Addr)
    (htype : c.type ≠ nodePayloadTypeCmdPowerSwitch) :
    handleCommand thiz c place = (do
      let i ← commandSetIndex c.portId
      let r ← dlistAppend thiz.mem (thiz.commandSet i) place c
      .ok (c.toBoardPacket.toList.take c.toBoardPacketLen, { thiz with
        mem := r.2.1, commandSet := Function.update thiz.commandSet i r.2.2 })) := by
  simp only [handleCommand, if_neg htype, waitForResponse_eq, if_true]

/-- A command with memory for its node is the last one of its list. -/
theorem Holds.handleCommand_put {thiz : PacketTransfer} {cells : Outstanding}
    (h : Holds thiz.mem thiz.commandSet cells) {c : Command}
    (htype : c.type ≠ nodePayloadTypeCmdPowerSwitch) {i : Fin nodeNum}
    (hindex : commandSetIndex c.portId = .ok i) {l : DList} (hset : thiz.commandSet i = some l)
    {a : Addr} (ha : thiz.mem.nodes a = none) :
    ∃ toBoard m' l', handleCommand thiz c (some a) = .ok (toBoard, { thiz with
        mem := m', commandSet := Function.update thiz.commandSet i (some l') }) ∧
      Holds m' (Function.update thiz.commandSet i (some l'))
        (Function.update cells i (cells i ++ [(a, c)])) ∧
      m'.destroyed = thiz.mem.destroyed := by
  obtain ⟨m', l', happ, hholds, hdes⟩ := h.append hset ha c
  refine ⟨c.toBoardPacket.toList.take c.toBoardPacketLen, m', l', ?_, hholds, hdes⟩
  rw [handleCommand_eq thiz _ htype, hindex, ok_bind, hset, happ, ok_bind]

/-- So is a command that is kept. -/
theorem Holds.handleCommand_kept {thiz : PacketTransfer} {cells : Outstanding}
    (h : Holds thiz.mem thiz.commandSet cells) {c : Command} {place : Option Addr}
    (hkept : Kept thiz c.portId c.type place) :
    ∃ toBoard m' set' i a, handleCommand thiz c place =
        .ok (toBoard, { thiz with mem := m', commandSet := set' }) ∧
      Holds m' set' (Function.update cells i (cells i ++ [(a, c)])) ∧
      m'.destroyed = thiz.mem.destroyed := by
  obtain ⟨htype, i, l, a, hindex, hset, rfl, ha⟩ := hkept
  obtain ⟨toBoard, m', l', hput⟩ := h.handleCommand_put htype hindex hset ha
  exact ⟨toBoard, m', _, i, a, hput⟩

/-- A command that is lost leaves everything as it is. -/
theorem handleCommand_lost {thiz : PacketTransfer} {c : Command} {place : Option Addr}
    (hlost : Lost thiz c.portId c.type place) :
    ∃ toBoard, handleCommand thiz c place = .ok (toBoard, thiz) := by
  by_cases htype : c.type = nodePayloadTypeCmdPowerSwitch
  · exact ⟨_, if_pos htype⟩
  · obtain ⟨i, hindex, hused⟩ := hlost.resolve_left htype
    refine ⟨c.toBoardPacket.toList.take c.toBoardPacketLen, ?_⟩
    rw [handleCommand_eq thiz _ htype, hindex, ok_bind]
    cases hset : thiz.commandSet i with
    | none =>
        rw [dlistAppend, dlistInsert, ok_bind]
        simp only [← hset, Function.update_eq_self]
    | some l =>
        rw [dlistAppend, dlistInsert_oom l _ c fun a ha => hused l a hset ha, ok_bind]
        simp only [← hset, Function.update_eq_self]

/-- A command for one of the ports that is not kept is lost. -/
theorem lost_of_not_kept {thiz : PacketTransfer} {portId type : UInt8} {place : Option Addr}
    {i : Fin nodeNum} (hindex : commandSetIndex portId = .ok i)
    (hkept : ¬ Kept thiz portId type place) : Lost thiz portId type place := by
  by_cases htype : type = nodePayloadTypeCmdPowerSwitch
  · exact Or.inl htype
  · refine Or.inr ⟨i, hindex, fun l a hset hplace ha => ?_⟩
    exact hkept ⟨htype, i, l, a, hindex, hset, hplace, ha⟩

/-- Every command that `handle_command` returns from is kept or lost. -/
theorem kept_or_lost {thiz : PacketTransfer} {c : Command} {place : Option Addr}
    {r : List UInt8 × PacketTransfer} (hrun : handleCommand thiz c place = .ok r) :
    Kept thiz c.portId c.type place ∨ Lost thiz c.portId c.type place := by
  by_cases htype : c.type = nodePayloadTypeCmdPowerSwitch
  · exact Or.inr (Or.inl htype)
  · rw [handleCommand_eq thiz _ htype] at hrun
    obtain ⟨i, hindex, -⟩ := bind_eq_ok.1 hrun
    exact or_iff_not_imp_left.2 (lost_of_not_kept hindex)

/-! ### Commands -/

/-- **`handle_command` for one of the ports 0 to 7** returns, changes the lists only, and does to
the queues what it should, if the list of the port exists. -/
theorem handleCommand_spec {thiz : PacketTransfer} {cells : Outstanding}
    (h : Holds thiz.mem thiz.commandSet cells) (c : PortCommand) (place : Option Addr) :
    ∃ toBoard m' set' cells', handleCommand thiz c.1 place =
        .ok (toBoard, { thiz with mem := m', commandSet := set' }) ∧
      Holds m' set' cells' ∧ (∀ i, set' i = none ↔ thiz.commandSet i = none) ∧
      (thiz.commandSet c.port ≠ none → cells' = cells.step (.command c place)) := by
  have hindex : commandSetIndex c.1.portId = .ok c.port := commandSetIndex_of_lt c.2
  by_cases hkept : Kept thiz c.1.portId c.1.type place
  · obtain ⟨htype, i, l, a, hi, hset, rfl, ha⟩ := hkept
    rw [hindex] at hi
    cases hi
    obtain ⟨toBoard, m', l', hrun, hholds, -⟩ := h.handleCommand_put htype hindex hset ha
    have hfree : ¬ cells.Uses a := fun ⟨i, hi⟩ => h.free_iff.1 ha i hi
    refine ⟨toBoard, m', _, _, hrun, hholds, update_eq_none_iff hset l', fun _ => ?_⟩
    rw [Outstanding.step, if_neg (not_or.2 ⟨htype, hfree⟩)]
  · obtain ⟨toBoard, hrun⟩ := handleCommand_lost (lost_of_not_kept hindex hkept)
    refine ⟨toBoard, thiz.mem, thiz.commandSet, cells, hrun, h, fun _ => Iff.rfl, fun hne => ?_⟩
    obtain ⟨l, hset⟩ := Option.ne_none_iff_exists'.1 hne
    cases place with
    | none => rfl
    | some a =>
        -- the place is in use, or the command is not queued at all
        have hskip : c.1.type = nodePayloadTypeCmdPowerSwitch ∨ cells.Uses a := by
          by_contra hnot
          rw [not_or] at hnot
          have ha : thiz.mem.nodes a = none := h.free_iff.2 fun i hi => hnot.2 ⟨i, hi⟩
          exact hkept ⟨hnot.1, c.port, l, a, hindex, hset, rfl, ha⟩
        rw [Outstanding.step, if_pos hskip]

/-! ### Responses -/

/-- The index that `dlist_find` returns, and what is left when the node there is deleted. -/
theorem findIdx_eraseP {α : Type} (p : α → Bool) (l : List α) :
    (∃ c pre post, l = pre ++ c :: post ∧ l.findIdx p = pre.length ∧ l.eraseP p = pre ++ post) ∨
      (l.findIdx p = l.length ∧ l.eraseP p = l) := by
  by_cases hmatch : ∃ c ∈ l, p c = true
  · obtain ⟨c₀, hc₀, hp₀⟩ := hmatch
    obtain ⟨c, pre, post, hpre, hc, hl, herase⟩ := List.exists_of_eraseP hc₀ hp₀
    refine Or.inl ⟨c, pre, post, hl, ?_, herase⟩
    have hlen : pre.findIdx p = pre.length :=
      List.findIdx_eq_length_of_false fun b hb => by simpa using hpre b hb
    rw [hl, List.findIdx_append, hlen, if_neg (lt_irrefl _), List.findIdx_cons, hc, cond_true,
      Nat.zero_add]
  · have hnone : ∀ c ∈ l, p c = false := by
      intro c hc
      by_contra hbad
      exact hmatch ⟨c, hc, by simpa using hbad⟩
    exact Or.inr ⟨List.findIdx_eq_length_of_false hnone,
      List.eraseP_of_forall_not fun c hc => by simp [hnone c hc]⟩

/-- **Searching one list and deleting what is found** frees the first match, if there is one. -/
theorem Holds.deleteFound {m : Mem Command} {set : Fin nodeNum → Option DList} {cells : Outstanding}
    (h : Holds m set cells) {i : Fin nodeNum} {l : DList} (hset : set i = some l)
    (hne : cells i ≠ []) (compare : Command → Bool) :
    ∃ k m' l', dlistFind m (some l) compare = .ok k ∧
      dlistDelete m (some l) k = .ok (.ok, m', some l') ∧
      Holds m' (Function.update set i (some l'))
        (Function.update cells i ((cells i).eraseP fun q => compare q.2)) ∧
      ((m' = m ∧ (cells i).eraseP (fun q => compare q.2) = cells i) ∨
        ∃ pre c post, cells i = pre ++ c :: post ∧
          (cells i).eraseP (fun q => compare q.2) = pre ++ post ∧
          m'.destroyed = m.destroyed ++ [c.2]) := by
  obtain ⟨-, hrep⟩ := h.lists i l hset
  rcases findIdx_eraseP (fun q : Addr × Command => compare q.2) (cells i) with
    ⟨c, pre, post, hcells, hidx, herase⟩ | ⟨hidx, herase⟩
  · obtain ⟨m', l', hdel, hholds, hdes⟩ := h.delete hset hcells
    refine ⟨pre.length, m', l', ?_, hdel, ?_, Or.inr ⟨pre, c, post, hcells, herase, hdes⟩⟩
    · rw [dlistFind_eq hrep, hidx]
    · rwa [herase]
  -- without a match, the index is the length of the list
  · refine ⟨(cells i).length, m, l, ?_, dlistDelete_outside hrep hne le_rfl, ?_,
      Or.inl ⟨rfl, herase⟩⟩
    · rw [dlistFind_eq hrep, hidx]
    · rw [herase, ← hset, Function.update_eq_self, Function.update_eq_self]
      exact h

/-- **`handle_response` for a port that has outstanding commands** returns, changes the lists only,
and does to the queues what it should. -/
theorem handleResponse_spec (thiz : PacketTransfer) {cells : Outstanding}
    (h : Holds thiz.mem thiz.commandSet cells) (r : PortResponse) (hr : thiz.response = r.1)
    (hset : thiz.commandSet r.port ≠ none) (hne : cells r.port ≠ []) :
    ∃ m' set', handleResponse thiz = .ok { thiz with mem := m', commandSet := set' } ∧
      Holds m' set' (cells.step (.response r)) ∧ ∀ i, set' i = none ↔ thiz.commandSet i = none := by
  obtain ⟨l, hset⟩ := Option.ne_none_iff_exists'.1 hset
  have hindex : commandSetIndex thiz.response.portId = .ok r.port := by
    rw [hr]
    exact commandSetIndex_of_lt r.2
  obtain ⟨k, m', l', hfind, hdel, hholds, -⟩ := h.deleteFound hset hne
    (responseFindCb (nodeTypeConvertRespToCmd thiz.response.type))
  refine ⟨m', _, ?_, ?_, update_eq_none_iff hset l'⟩
  · simp only [handleResponse_eq, hindex, hset, hfind, ok_bind, hdel]
  · simp only [responseFindCb_eq, hr] at hholds
    exact hholds

/-- **`handle_response` for a port that has none** reads through `NULL`. -/
theorem handleResponse_empty (thiz : PacketTransfer) {cells : Outstanding}
    (h : Holds thiz.mem thiz.commandSet cells) (r : PortResponse) (hr : thiz.response = r.1)
    (hempty : cells r.port = []) : handleResponse thiz = .error .nullDeref := by
  have hindex : commandSetIndex thiz.response.portId = .ok r.port := by
    rw [hr]
    exact commandSetIndex_of_lt r.2
  cases hset : thiz.commandSet r.port with
  | none => simp only [handleResponse_eq, hindex, hset, ok_bind, dlistFind, error_bind]
  | some l =>
      obtain ⟨-, hrep⟩ := h.lists r.port l hset
      rw [hempty] at hrep
      simp only [handleResponse_eq, hindex, hset, ok_bind, dlistFind_eq hrep, dlistDelete_nil hrep,
        error_bind]

/-- What is left of the lists by a call of `handle_response` that returns: all of them, or all but
the command that it has freed. -/
theorem Holds.handleResponse_ok {thiz thiz' : PacketTransfer} {cells : Outstanding}
    (h : Holds thiz.mem thiz.commandSet cells) (hrun : handleResponse thiz = .ok thiz') :
    ∃ m' set' cells', thiz' = { thiz with mem := m', commandSet := set' } ∧ Holds m' set' cells' ∧
      ((m' = thiz.mem ∧ cells' = cells) ∨
        ∃ i pre c post, cells i = pre ++ c :: post ∧
          cells' = Function.update cells i (pre ++ post) ∧
          m'.destroyed = thiz.mem.destroyed ++ [c.2]) := by
  rw [handleResponse_eq] at hrun
  obtain ⟨i, -, hrun⟩ := bind_eq_ok.1 hrun
  cases hset : thiz.commandSet i with
  | none =>
      rw [hset, dlistFind, error_bind] at hrun
      cases hrun
  | some l =>
      by_cases hempty : cells i = []
      · obtain ⟨-, hrep⟩ := h.lists i l hset
        rw [hempty] at hrep
        rw [hset, dlistFind_eq hrep, ok_bind, dlistDelete_nil hrep, error_bind] at hrun
        cases hrun
      · obtain ⟨k, m', l', hfind, hdel, hholds, hleft⟩ := h.deleteFound hset hempty
          (responseFindCb (nodeTypeConvertRespToCmd thiz.response.type))
        rw [hset, hfind, ok_bind, hdel, ok_bind] at hrun
        cases hrun
        refine ⟨m', _, _, rfl, hholds, hleft.imp (fun hsame => ?_) fun hfound => ?_⟩
        · exact ⟨hsame.1, by rw [hsame.2, Function.update_eq_self]⟩
        · obtain ⟨pre, c, post, hcells, herase, hdes⟩ := hfound
          exact ⟨i, pre, c, post, hcells, by rw [herase], hdes⟩

/-- A command, on lists that all exist. -/
theorem setStep_command {thiz : PacketTransfer} {cells : Outstanding}
    (h : Holds thiz.mem thiz.commandSet cells) (hall : ∀ i, thiz.commandSet i ≠ none)
    (c : PortCommand) (place : Option Addr) :
    ∃ thiz', setStep thiz (.command c place) = .ok ((), thiz') ∧
      Holds thiz'.mem thiz'.commandSet (cells.step (.command c place)) ∧
      ∀ i, thiz'.commandSet i ≠ none := by
  obtain ⟨toBoard, m', set', cells', hrun, hholds, hnone, hcells⟩ := handleCommand_spec h c place
  refine ⟨{ thiz with mem := m', commandSet := set' }, ?_, ?_, ?_⟩
  · rw [setStep, hrun, ok_bind]
  · rw [← hcells (hall c.port)]
    exact hholds
  · exact fun i => mt (hnone i).1 (hall i)

/-- A response that finds its queue not empty. -/
theorem setStep_response {thiz : PacketTransfer} {cells : Outstanding}
    (h : Holds thiz.mem thiz.commandSet cells) (hall : ∀ i, thiz.commandSet i ≠ none)
    (r : PortResponse) (hne : cells r.port ≠ []) :
    ∃ thiz', setStep thiz (.response r) = .ok ((), thiz') ∧
      Holds thiz'.mem thiz'.commandSet (cells.step (.response r)) ∧
      ∀ i, thiz'.commandSet i ≠ none := by
  obtain ⟨m', set', hrun, hholds, hnone⟩ :=
    handleResponse_spec { thiz with response := r.1 } h r rfl (hall r.port) hne
  refine ⟨{ thiz with response := r.1, mem := m', commandSet := set' }, ?_, hholds, ?_⟩
  · rw [setStep, hrun, ok_bind]
  · exact fun i => mt (hnone i).1 (hall i)

/-- A response that finds its queue empty. -/
theorem setStep_response_empty {thiz : PacketTransfer} {cells : Outstanding}
    (h : Holds thiz.mem thiz.commandSet cells) (r : PortResponse) (hempty : cells r.port = []) :
    setStep thiz (.response r) = .error .nullDeref := by
  rw [setStep, handleResponse_empty { thiz with response := r.1 } h r rfl hempty, error_bind]

/-! ### Runs -/

/-- **The lists are in step with the queues** after the calls: the run returns, and every list holds
the commands of its queue in order. -/
def Accounted (board : GatherBoard) (calls : List SetCall) : Prop :=
  ∃ tr thiz, trace setStep (packetTransferCreate board fun _ => true) calls = .ok (tr, thiz) ∧
    ∀ i, ∃ l, thiz.commandSet i = some l ∧
      l.Represents thiz.mem (calls.foldl Outstanding.step (fun _ => []) i)

/-- The calls return as long as every response is answerable, and fault at the first that is not. -/
theorem trace_setStep (calls : List SetCall) : ∀ {thiz : PacketTransfer} {cells : Outstanding},
    Holds thiz.mem thiz.commandSet cells → (∀ i, thiz.commandSet i ≠ none) →
    (Answerable cells calls → ∃ tr thiz', trace setStep thiz calls = .ok (tr, thiz') ∧
      Holds thiz'.mem thiz'.commandSet (calls.foldl Outstanding.step cells) ∧
      ∀ i, thiz'.commandSet i ≠ none) ∧
    (¬ Answerable cells calls → trace setStep thiz calls = .error .nullDeref) := by
  induction calls with
  | nil =>
      intro thiz cells h hall
      exact ⟨fun _ => ⟨[], thiz, rfl, h, hall⟩, fun hnot => absurd trivial hnot⟩
  | cons call calls ih =>
      intro thiz cells h hall
      -- a call that returns leaves the rest of the run to the induction
      have hnext : ∀ {thiz' : PacketTransfer}, setStep thiz call = .ok ((), thiz') →
          Holds thiz'.mem thiz'.commandSet (cells.step call) →
          (∀ i, thiz'.commandSet i ≠ none) →
          (Answerable (cells.step call) calls →
            ∃ tr thiz'', trace setStep thiz (call :: calls) = .ok (tr, thiz'') ∧
              Holds thiz''.mem thiz''.commandSet ((call :: calls).foldl Outstanding.step cells) ∧
              ∀ i, thiz''.commandSet i ≠ none) ∧
          (¬ Answerable (cells.step call) calls →
            trace setStep thiz (call :: calls) = .error .nullDeref) := by
        intro thiz' hstep h' hall'
        obtain ⟨hok, herr⟩ := ih h' hall'
        constructor
        · intro hans
          obtain ⟨tr, thiz'', htr, hholds, hall''⟩ := hok hans
          exact ⟨_, thiz'', trace_cons_ok hstep htr, hholds, hall''⟩
        · exact fun hnot => trace_cons_error_tail hstep (herr hnot)
      cases call with
      | command c place =>
          obtain ⟨thiz', hstep, h', hall'⟩ := setStep_command h hall c place
          exact hnext hstep h' hall'
      | response r =>
          by_cases hempty : cells r.port = []
          · refine ⟨fun hans => absurd hempty hans.1, fun _ => ?_⟩
            exact trace_cons_error (setStep_response_empty h r hempty) calls
          · obtain ⟨thiz', hstep, h', hall'⟩ := setStep_response h hall r hempty
            obtain ⟨hok, herr⟩ := hnext hstep h' hall'
            refine ⟨fun hans => hok hans.2, fun hnot => herr fun hans => hnot ⟨hempty, hans⟩⟩

/-- **The lists follow the queues exactly when every response is answerable.** -/
theorem accounted_iff (board : GatherBoard) (calls : List SetCall) :
    Accounted board calls ↔ Answerable (fun _ => []) calls := by
  have hall : ∀ i, (packetTransferCreate board fun _ => true).commandSet i ≠ none :=
    fun i => by simp [packetTransferCreate]
  obtain ⟨hok, herr⟩ := trace_setStep calls (holds_create board fun _ => true) hall
  constructor
  · rintro ⟨tr, thiz, htr, -⟩
    by_contra hnot
    rw [herr hnot] at htr
    cases htr
  · intro hans
    obtain ⟨tr, thiz, htr, hholds, hall'⟩ := hok hans
    refine ⟨tr, thiz, htr, fun i => ?_⟩
    obtain ⟨l, hl⟩ := Option.ne_none_iff_exists'.1 (hall' i)
    exact ⟨l, hl, (hholds.lists i l hl).2⟩

/-- A report that no command has asked for, from a node that has no outstanding command. -/
def unsolicited : PortResponse := ⟨.zero, by decide⟩

/-- It makes the program read through `NULL`. -/
theorem unsolicited_faults :
    trace setStep (packetTransferCreate willingBoard fun _ => true) [.response unsolicited] =
        .error .nullDeref ∧
      ¬ Accounted willingBoard [.response unsolicited] := by
  have hrun : trace setStep (packetTransferCreate willingBoard fun _ => true)
      [.response unsolicited] = .error .nullDeref :=
    trace_cons_error (setStep_response_empty (holds_create willingBoard fun _ => true) _ rfl) _
  refine ⟨hrun, ?_⟩
  rintro ⟨tr, thiz, htr, -⟩
  rw [hrun] at htr
  cases htr

end Wsn
