/-
**What becomes of a command record.**

A call of `process_one_command` allocates a record.  A call that fails frees it; otherwise the
record goes to `handle_command`, which puts it into a list, or forgets it.  `command_destroy_cb`
frees the records that responses take out of the lists.  This module says which records have an
owner, and which of them the lists hold for ever.

Main definitions:

* `Wsn.Arrives` — the packet that a call of `process_one_command` reads;
* `Wsn.Owned` — every record allocated so far is freed once, or held by one node of one list;
* `Wsn.Leaks`, `Wsn.QueuesCurrent` — the calls that lose a record, and that put a command into a
  list which no response ever takes out.

Main results:

* `Wsn.processOneCommand_ok` — how a call that returns has ended;
* `Wsn.records_owned_iff` — **in every run, every record has one owner** as long as no call leaks;
* `Wsn.only_answered_iff` — **in every run, the lists hold answerable commands** as long as no call
  queues one for the current.
-/

import WsnPlatform.UntrustedInput

set_option relaxedAutoImplicit false
set_option autoImplicit false

namespace Wsn

open FixedBuffer FaultRun

/-! ### Calls that return -/

/-- **The packet that a call of `process_one_command` reads**, with what its record held before
where nothing arrives. -/
def Arrives (thiz : PacketTransfer) (env : CallEnv)
    (packet : List.Vector UInt8 cmdBPacketMaxSize) : Prop :=
  ∃ record len body, received env thiz.pending = .command record len body ∧
    copyAt record.toBoardPacket 0 body = some packet

theorem cmdBPortIdIndex_lt : cmdBPortIdIndex < cmdBPacketMaxSize := by decide

theorem cmdBPayloadTypeIndex_lt : cmdBPayloadTypeIndex < cmdBPacketMaxSize := by decide

/-- The byte that becomes the port, counted from 1 by the host. -/
def portOf (packet : List.Vector UInt8 cmdBPacketMaxSize) : UInt8 :=
  packet.get ⟨cmdBPortIdIndex, cmdBPortIdIndex_lt⟩ - 1

/-- The byte that becomes the type. -/
def typeOf (packet : List.Vector UInt8 cmdBPacketMaxSize) : UInt8 :=
  packet.get ⟨cmdBPayloadTypeIndex, cmdBPayloadTypeIndex_lt⟩

section Calls

variable {thiz : PacketTransfer} {env : CallEnv}
  {packet : List.Vector UInt8 cmdBPacketMaxSize}

/-- A packet that arrives goes to `handle_command`. -/
theorem Arrives.call (h : Arrives thiz env packet) :
    ∃ len, processOneCommand thiz env = (do
      let r ← handleCommand (afterBody thiz env len) (commandFrom thiz.allocated len packet)
        env.place
      .ok (⟨.ok, some len, some (commandFrom thiz.allocated len packet), r.1⟩, r.2)) := by
  obtain ⟨record, len, body, hrec, hcopy⟩ := h
  exact ⟨len, by rw [processOneCommand_received hrec, hcopy, stored_some, ok_bind]⟩

/-- **How a call of `process_one_command` that returns has ended**: it failed and freed its record,
if it had one; or a packet has arrived. -/
theorem processOneCommand_ok {o : CommandOutcome × PacketTransfer}
    (hrun : processOneCommand thiz env = .ok o) :
    (o.1.ret = .fail ∧ (∀ packet, ¬ Arrives thiz env packet) ∧ SameHeld thiz o.2 ∧
      o.2.allocated = (released thiz env).allocated ∧ o.2.freed = (released thiz env).freed) ∨
    ∃ packet len r, Arrives thiz env packet ∧
      handleCommand (afterBody thiz env len) (commandFrom thiz.allocated len packet) env.place =
        .ok r ∧
      o.1.ret = .ok ∧ o.2 = r.2 := by
  obtain ⟨hmem, hset, hreassembly⟩ := sameHeld_released thiz env
  cases hrec : received env thiz.pending with
  | nothing =>
      rw [processOneCommand_nothing_eq hrec] at hrun
      cases hrun
      refine Or.inl ⟨rfl, ?_, ⟨hmem, hset, hreassembly⟩, rfl, rfl⟩
      rintro packet ⟨_, _, _, harrives, -⟩
      rw [hrec] at harrives
      cases harrives
  | length len =>
      rw [processOneCommand_length_eq hrec] at hrun
      cases hrun
      refine Or.inl ⟨rfl, ?_, ⟨hmem, hset, hreassembly⟩, rfl, rfl⟩
      rintro packet ⟨_, _, _, harrives, -⟩
      rw [hrec] at harrives
      cases harrives
  | command record len body =>
      rw [processOneCommand_received hrec] at hrun
      cases hcopy : copyAt record.toBoardPacket 0 body with
      | none =>
          rw [hcopy, stored_none, error_bind] at hrun
          cases hrun
      | some packet =>
          rw [hcopy, stored_some, ok_bind] at hrun
          obtain ⟨r, hhandle, hret⟩ := bind_eq_ok.1 hrun
          cases hret
          exact Or.inr ⟨packet, len, r, ⟨record, len, body, hrec, hcopy⟩, hhandle, rfl, rfl⟩

end Calls

/-! ### Owners -/

/-- The records that the lists refer to. -/
def queuedBlocks (cells : Outstanding) : List ℕ :=
  (List.finRange nodeNum).flatMap fun i => (cells i).map fun q => q.2.block

/-- **Every record allocated so far has one owner**: it is freed once, or one node of one list
refers to it. -/
def Owned (thiz : PacketTransfer) : Prop :=
  ∃ cells, Holds thiz.mem thiz.commandSet cells ∧
    (thiz.freed ++ thiz.mem.destroyed.map Command.block ++ queuedBlocks cells).Perm
      (List.range thiz.allocated)

theorem owned_create (board : GatherBoard) (lists : Fin nodeNum → Bool) :
    Owned (packetTransferCreate board lists) := by
  refine ⟨fun _ => [], holds_create board lists, ?_⟩
  simp [packetTransferCreate, Mem.empty, queuedBlocks]

/-- One more element in the list at one index. -/
theorem flatMap_perm_cons {ι β : Type} [DecidableEq ι] {f g : ι → List β} {i : ι} {x : β}
    (hi : (f i).Perm (x :: g i)) (hne : ∀ j, j ≠ i → f j = g j) {is : List ι} (hmem : i ∈ is)
    (hnd : is.Nodup) : (is.flatMap f).Perm (x :: is.flatMap g) := by
  induction is with
  | nil => cases hmem
  | cons j is ih =>
      rw [List.nodup_cons] at hnd
      rw [List.flatMap_cons, List.flatMap_cons]
      rcases eq_or_ne j i with rfl | hji
      · have hrest : is.flatMap f = is.flatMap g :=
          List.flatMap_congr fun k hk => hne k fun hkj => hnd.1 (hkj ▸ hk)
        rw [hrest]
        exact hi.append_right _
      · have hrest := ih ((List.mem_cons.1 hmem).resolve_left (Ne.symm hji)) hnd.2
        rw [hne j hji]
        exact (hrest.append_left _).trans List.perm_middle

/-- A record joins a list. -/
theorem queuedBlocks_append (cells : Outstanding) (i : Fin nodeNum) (a : Addr) (c : Command) :
    (queuedBlocks (Function.update cells i (cells i ++ [(a, c)]))).Perm
      (c.block :: queuedBlocks cells) := by
  refine flatMap_perm_cons (i := i) ?_ (fun j hj => ?_) (List.mem_finRange i)
    (List.nodup_finRange nodeNum)
  · rw [Function.update_self, List.map_append]
    exact List.perm_append_comm
  · rw [Function.update_of_ne hj]

/-- A record leaves a list. -/
theorem queuedBlocks_remove {cells : Outstanding} {i : Fin nodeNum}
    {pre post : List (Addr × Command)} {c : Addr × Command} (hcells : cells i = pre ++ c :: post) :
    (queuedBlocks cells).Perm
      (c.2.block :: queuedBlocks (Function.update cells i (pre ++ post))) := by
  refine flatMap_perm_cons (i := i) ?_ (fun j hj => ?_) (List.mem_finRange i)
    (List.nodup_finRange nodeNum)
  · rw [Function.update_self, hcells, List.map_append, List.map_append]
    exact List.perm_middle
  · rw [Function.update_of_ne hj]

/-! ### What a call does to the owners -/

/-- A call that changes records and lists: one that the environment makes, or `handle_response` on
any response. -/
inductive RecordCall
  | call (event : Event)
  | response (r : Response)

/-- **The call.** -/
def recordStep (thiz : PacketTransfer) : RecordCall → Exec (Ret × PacketTransfer)
  | .call event => thiz.step event
  | .response r => do
      let thiz ← handleResponse { thiz with response := r }
      .ok (.ok, thiz)

/-- **A call loses its record**: a packet arrives, and its command is lost. -/
def Leaks (thiz : PacketTransfer) : RecordCall → Prop
  | .call (.command env) => ∃ packet, Arrives thiz env packet ∧
      Lost thiz (portOf packet) (typeOf packet) env.place
  | _ => False

/-- A call of `process_one_command` that fails has freed its record, if it had one, and has left the
lists alone. -/
def FailReleases (thiz : PacketTransfer) (o : Ret × PacketTransfer) : RecordCall → Prop
  | .call (.command env) => o.1 = .fail → o.2.mem = thiz.mem ∧ o.2.commandSet = thiz.commandSet ∧
      (env.record ≠ none → o.2.freed = thiz.freed ++ [thiz.allocated])
  | _ => True

/-- **A call that returns leaves every record with one owner.** -/
def OneOwner (thiz : PacketTransfer) (call : RecordCall) : Prop :=
  ∀ o, recordStep thiz call = .ok o → Owned o.2 ∧ FailReleases thiz o call

section Owners

variable {thiz thiz' : PacketTransfer}

theorem perm_range_succ {blocks : List ℕ} {n : ℕ} (h : blocks.Perm (List.range n)) :
    (n :: blocks).Perm (List.range (n + 1)) := by
  rw [List.range_succ]
  have hlast : (n :: List.range n).Perm (List.range n ++ [n]) :=
    (List.perm_append_singleton n _).symm
  exact (h.cons n).trans hlast

/-- Only the records, the lists and the nodes matter. -/
theorem Owned.congr (h : Owned thiz) (hmem : thiz'.mem = thiz.mem)
    (hset : thiz'.commandSet = thiz.commandSet) (hallocated : thiz'.allocated = thiz.allocated)
    (hfreed : thiz'.freed = thiz.freed) : Owned thiz' := by
  obtain ⟨cells, hholds, hperm⟩ := h
  exact ⟨cells, by rwa [hmem, hset], by rwa [hmem, hallocated, hfreed]⟩

/-- A record that is allocated and freed. -/
theorem Owned.released (h : Owned thiz) (env : CallEnv) : Owned (released thiz env) := by
  unfold Wsn.released
  cases env.record with
  | none => exact h
  | some record =>
      obtain ⟨cells, hholds, hperm⟩ := h
      refine ⟨cells, hholds, ?_⟩
      have hfreed : (thiz.freed ++ [thiz.allocated] ++ thiz.mem.destroyed.map Command.block ++
          queuedBlocks cells).Perm (thiz.allocated :: (thiz.freed ++
            thiz.mem.destroyed.map Command.block ++ queuedBlocks cells)) := by
        simp only [List.append_assoc]
        exact List.perm_middle
      exact hfreed.trans (perm_range_succ hperm)

/-- A record that is put into a list. -/
theorem Owned.kept (h : Owned thiz) {env : CallEnv} {len : ℕ} {c : Command}
    (hblock : c.block = thiz.allocated) {place : Option Addr} {r : List UInt8 × PacketTransfer}
    (hkept : Kept (afterBody thiz env len) c.portId c.type place)
    (hrun : handleCommand (afterBody thiz env len) c place = .ok r) : Owned r.2 := by
  obtain ⟨cells, hholds, hperm⟩ := h
  have hread : Holds (afterBody thiz env len).mem (afterBody thiz env len).commandSet cells :=
    hholds
  obtain ⟨toBoard, m', set', i, a, hhandle, hholds', hdes⟩ := hread.handleCommand_kept hkept
  rw [hhandle] at hrun
  cases hrun
  refine ⟨_, hholds', ?_⟩
  have hjoin : (thiz.freed ++ thiz.mem.destroyed.map Command.block ++
      queuedBlocks (Function.update cells i (cells i ++ [(a, c)]))).Perm
      (thiz.allocated :: (thiz.freed ++ thiz.mem.destroyed.map Command.block ++
        queuedBlocks cells)) := by
    rw [← hblock]
    exact ((queuedBlocks_append cells i a c).append_left _).trans List.perm_middle
  change (thiz.freed ++ m'.destroyed.map Command.block ++ _).Perm (List.range (thiz.allocated + 1))
  rw [hdes]
  exact hjoin.trans (perm_range_succ hperm)

/-- A record that a response takes out of its list is freed. -/
theorem Owned.handleResponse (h : Owned thiz) (hrun : handleResponse thiz = .ok thiz') :
    Owned thiz' := by
  obtain ⟨cells, hholds, hperm⟩ := h
  obtain ⟨m', set', cells', rfl, hholds', ⟨rfl, rfl⟩ | ⟨i, pre, c, post, hcells, rfl, hdes⟩⟩ :=
    hholds.handleResponse_ok hrun
  · exact ⟨cells', hholds', hperm⟩
  · refine ⟨_, hholds', ?_⟩
    have hleave : (thiz.freed ++ (thiz.mem.destroyed ++ [c.2]).map Command.block ++
        queuedBlocks (Function.update cells i (pre ++ post))).Perm
        (thiz.freed ++ thiz.mem.destroyed.map Command.block ++ queuedBlocks cells) := by
      simp only [List.map_append, List.map_singleton, List.append_assoc, List.singleton_append]
      exact ((queuedBlocks_remove hcells).symm.append_left _).append_left _
    change (thiz.freed ++ m'.destroyed.map Command.block ++ _).Perm (List.range thiz.allocated)
    rw [hdes]
    exact hleave.trans hperm

/-- A call of `process_one_command` that does not lose its record. -/
theorem Owned.processOneCommand (h : Owned thiz) {env : CallEnv}
    {o : CommandOutcome × PacketTransfer} (hrun : processOneCommand thiz env = .ok o)
    (hleak : ¬ Leaks thiz (.call (.command env))) : Owned o.2 := by
  rcases processOneCommand_ok hrun with
    ⟨-, -, hsame, hallocated, hfreed⟩ | ⟨packet, len, r, harrives, hhandle, -, hret⟩
  · have hheld := sameHeld_released thiz env
    exact (h.released env).congr (hsame.mem.trans hheld.mem.symm)
      (hsame.commandSet.trans hheld.commandSet.symm) hallocated hfreed
  · rw [hret]
    rcases kept_or_lost hhandle with hkept | hlost
    · exact h.kept rfl hkept hhandle
    · exact absurd ⟨packet, harrives, hlost⟩ hleak

/-- **A call that does not leak** leaves every record with one owner. -/
theorem Owned.step (h : Owned thiz) {call : RecordCall} {o : Ret × PacketTransfer}
    (hstep : recordStep thiz call = .ok o) (hleak : ¬ Leaks thiz call) : Owned o.2 := by
  cases call with
  | response r =>
      obtain ⟨thiz', hrun, hret⟩ := bind_eq_ok.1 hstep
      cases hret
      have howned : Owned { thiz with response := r } := h
      exact howned.handleResponse hrun
  | call event =>
      cases event with
      | connect socket stream =>
          cases hstep
          exact h
      | command env =>
          obtain ⟨r, hrun, hret⟩ := bind_eq_ok.1 hstep
          cases hret
          exact h.processOneCommand hrun hleak
      | frame f =>
          obtain ⟨r, -, hsame | hrun⟩ := processOneResponse_inv hstep
          · rw [hsame]
            exact h
          · have howned : Owned (thiz.withReassembly r.2) := h
            exact howned.handleResponse hrun
      | disconnect =>
          cases hstep
          exact h

/-- **A call that leaks** leaves a record without an owner. -/
theorem Leaks.not_owned (h : Owned thiz) {call : RecordCall} (hleak : Leaks thiz call) :
    ∃ o, recordStep thiz call = .ok o ∧ ¬ Owned o.2 := by
  match call, hleak with
  | .call (.command env), ⟨packet, harrives, hlost⟩ =>
      obtain ⟨len, hrun⟩ := harrives.call
      have hread : Lost (afterBody thiz env len) (commandFrom thiz.allocated len packet).portId
          (commandFrom thiz.allocated len packet).type env.place := hlost
      obtain ⟨toBoard, hhandle⟩ := handleCommand_lost hread
      rw [hhandle, ok_bind] at hrun
      refine ⟨(.ok, afterBody thiz env len), ?_, ?_⟩
      · rw [recordStep, PacketTransfer.step, hrun, ok_bind]
      · rintro ⟨cells', hholds', hperm'⟩
        obtain ⟨cells, hholds, hperm⟩ := h
        obtain rfl := hholds.unique hholds'
        -- the same records cannot be as many as were allocated before and after
        have hlen : thiz.allocated + 1 = thiz.allocated := by
          have hbefore := hperm.length_eq
          have hafter := hperm'.length_eq
          rw [List.length_range] at hbefore hafter
          exact hafter.symm.trans hbefore
        omega

/-- A call that fails frees its record. -/
theorem failReleases_of_ok {call : RecordCall} {o : Ret × PacketTransfer}
    (hstep : recordStep thiz call = .ok o) : FailReleases thiz o call := by
  match call with
  | .call (.command env) =>
      intro hfail
      obtain ⟨r, hrun, hret⟩ := bind_eq_ok.1 hstep
      cases hret
      rcases processOneCommand_ok hrun with
        ⟨-, -, hsame, -, hfreed⟩ | ⟨_, _, _, -, -, hok, -⟩
      · refine ⟨hsame.mem, hsame.commandSet, fun hrecord => ?_⟩
        obtain ⟨record, hrecord⟩ := Option.ne_none_iff_exists'.1 hrecord
        rw [hfreed, released, hrecord]
      · rw [hok] at hfail
        cases hfail
  | .call (.connect _ _) => trivial
  | .call (.frame _) => trivial
  | .call .disconnect => trivial
  | .response _ => trivial

end Owners

/-- **One call** leaves every record with one owner exactly when it does not leak. -/
theorem oneOwner_iff_not_leaks (thiz : PacketTransfer) (call : RecordCall) (h : Owned thiz) :
    OneOwner thiz call ↔ ¬ Leaks thiz call := by
  constructor
  · intro howner hleak
    obtain ⟨o, hstep, hnot⟩ := hleak.not_owned h
    exact hnot (howner o hstep).1
  · exact fun hleak o hstep => ⟨h.step hstep hleak, failReleases_of_ok hstep⟩

/-- **In every run, every record has one owner** after every call, as long as no call leaks. -/
theorem records_owned_iff (board : GatherBoard) (lists : Fin nodeNum → Bool)
    (calls : List RecordCall) :
    Along recordStep OneOwner (packetTransferCreate board lists) calls ↔
      Along recordStep (fun thiz call => ¬ Leaks thiz call) (packetTransferCreate board lists)
        calls :=
  along_iff_of_kept (fun _ _ o _ howner hstep => (howner o hstep).1) oneOwner_iff_not_leaks
    (owned_create board lists) calls

/-- The host switches the first node off. -/
def powerOff : List UInt8 :=
  [0, 16, 1, 0x7E, 0x44, 0, 0, 1, 0, 0, 2, 0x22, 6, 0x54, 0, 0, 0, 0x7E]

/-- The record of the command stays without an owner. -/
theorem powerOff_leaks :
    ¬ Along recordStep OneOwner (packetTransferCreate willingBoard fun _ => true)
      [.call (.connect 4 powerOff), .call (.command generousEnv)] := by
  rintro ⟨-, h⟩
  obtain ⟨howner, -⟩ := h _ rfl
  have howned : Owned (openConnection (packetTransferCreate willingBoard fun _ => true) 4
      powerOff) := owned_create willingBoard fun _ => true
  exact (oneOwner_iff_not_leaks _ _ howned).1 howner ⟨_, ⟨_, _, _, rfl, rfl⟩, Or.inl rfl⟩

/-! ### Commands that no response answers -/

/-- **The lists hold commands that a response answers**, and none of the two types that
`handle_command` means not to wait for. -/
def OnlyAnswered (thiz : PacketTransfer) : Prop :=
  ∃ cells, Holds thiz.mem thiz.commandSet cells ∧ ∀ i, ∀ q ∈ cells i,
    q.2.type ≠ nodePayloadTypeCmdCurrent ∧ q.2.type ≠ nodePayloadTypeCmdPowerSwitch

/-- **A call puts a command for the current into a list.** -/
def QueuesCurrent (thiz : PacketTransfer) : Event → Prop
  | .command env => ∃ packet, Arrives thiz env packet ∧
      typeOf packet = nodePayloadTypeCmdCurrent ∧
      Kept thiz (portOf packet) (typeOf packet) env.place
  | _ => False

/-- A call that returns leaves no command in the lists that waits for ever. -/
def QueuesAnswered (thiz : PacketTransfer) (event : Event) : Prop :=
  ∀ o, thiz.step event = .ok o → OnlyAnswered o.2

theorem onlyAnswered_create (board : GatherBoard) (lists : Fin nodeNum → Bool) :
    OnlyAnswered (packetTransferCreate board lists) :=
  ⟨_, holds_create board lists, fun _ _ hq => by cases hq⟩

section Waiting

variable {thiz thiz' : PacketTransfer}

/-- Only the lists and the nodes matter. -/
theorem OnlyAnswered.congr (h : OnlyAnswered thiz) (hsame : SameHeld thiz thiz') :
    OnlyAnswered thiz' := by
  obtain ⟨cells, hholds, htypes⟩ := h
  exact ⟨cells, by rwa [hsame.mem, hsame.commandSet], htypes⟩

/-- A response takes a command out, and puts none in. -/
theorem OnlyAnswered.handleResponse (h : OnlyAnswered thiz)
    (hrun : handleResponse thiz = .ok thiz') : OnlyAnswered thiz' := by
  obtain ⟨cells, hholds, htypes⟩ := h
  obtain ⟨m', set', cells', rfl, hholds', ⟨-, rfl⟩ | ⟨i, pre, c, post, hcells, rfl, -⟩⟩ :=
    hholds.handleResponse_ok hrun
  · exact ⟨cells', hholds', htypes⟩
  · refine ⟨_, hholds', fun j q hq => ?_⟩
    rcases eq_or_ne j i with rfl | hji
    · rw [Function.update_self, List.mem_append] at hq
      refine htypes j q ?_
      rw [hcells, List.mem_append, List.mem_cons]
      exact hq.imp_right Or.inr
    · rw [Function.update_of_ne hji] at hq
      exact htypes j q hq

/-- A command that is kept has another type than the two, unless it is one for the current. -/
theorem OnlyAnswered.kept (h : OnlyAnswered thiz) {env : CallEnv} {len : ℕ} {c : Command}
    {place : Option Addr} {r : List UInt8 × PacketTransfer}
    (hkept : Kept (afterBody thiz env len) c.portId c.type place)
    (hrun : handleCommand (afterBody thiz env len) c place = .ok r)
    (htype : c.type ≠ nodePayloadTypeCmdCurrent) : OnlyAnswered r.2 := by
  obtain ⟨cells, hholds, htypes⟩ := h
  have hread : Holds (afterBody thiz env len).mem (afterBody thiz env len).commandSet cells :=
    hholds
  obtain ⟨toBoard, m', set', i, a, hhandle, hholds', -⟩ := hread.handleCommand_kept hkept
  rw [hhandle] at hrun
  cases hrun
  refine ⟨_, hholds', fun j q hq => ?_⟩
  rcases eq_or_ne j i with rfl | hji
  · rw [Function.update_self, List.mem_append, List.mem_singleton] at hq
    rcases hq with hq | rfl
    · exact htypes j q hq
    · exact ⟨htype, hkept.1⟩
  · rw [Function.update_of_ne hji] at hq
    exact htypes j q hq

/-- **A call that queues no command for the current** leaves no command that waits for ever. -/
theorem OnlyAnswered.step (h : OnlyAnswered thiz) {event : Event} {o : Ret × PacketTransfer}
    (hstep : thiz.step event = .ok o) (hqueues : ¬ QueuesCurrent thiz event) :
    OnlyAnswered o.2 := by
  cases event with
  | connect socket stream =>
      cases hstep
      exact h
  | disconnect =>
      cases hstep
      exact h
  | frame f =>
      obtain ⟨r, -, hsame | hrun⟩ := processOneResponse_inv hstep
      · rw [hsame]
        exact h
      · have hanswered : OnlyAnswered (thiz.withReassembly r.2) := h
        exact hanswered.handleResponse hrun
  | command env =>
      obtain ⟨r, hrun, hret⟩ := bind_eq_ok.1 hstep
      cases hret
      rcases processOneCommand_ok hrun with
        ⟨-, -, hsame, -⟩ | ⟨packet, len, r', harrives, hhandle, -, hret⟩
      · exact h.congr hsame
      · rw [hret]
        rcases kept_or_lost hhandle with hkept | hlost
        · exact h.kept hkept hhandle fun htype => hqueues ⟨packet, harrives, htype, hkept⟩
        · obtain ⟨toBoard, hsame⟩ := handleCommand_lost hlost
          rw [hsame] at hhandle
          cases hhandle
          exact h

/-- **A call that queues a command for the current** leaves it in its list. -/
theorem QueuesCurrent.not_onlyAnswered (h : OnlyAnswered thiz) {event : Event}
    (hqueues : QueuesCurrent thiz event) :
    ∃ o, thiz.step event = .ok o ∧ ¬ OnlyAnswered o.2 := by
  match event, hqueues with
  | .command env, ⟨packet, harrives, htype, hkept⟩ =>
      obtain ⟨cells, hholds, -⟩ := h
      obtain ⟨len, hrun⟩ := harrives.call
      have hread : Holds (afterBody thiz env len).mem (afterBody thiz env len).commandSet cells :=
        hholds
      have hkept' : Kept (afterBody thiz env len) (commandFrom thiz.allocated len packet).portId
          (commandFrom thiz.allocated len packet).type env.place := hkept
      obtain ⟨toBoard, m', set', i, a, hhandle, hholds', -⟩ := hread.handleCommand_kept hkept'
      rw [hhandle, ok_bind] at hrun
      refine ⟨(.ok, { afterBody thiz env len with mem := m', commandSet := set' }), ?_, ?_⟩
      · rw [PacketTransfer.step, hrun, ok_bind]
      · rintro ⟨cells', hholds'', htypes⟩
        obtain rfl := hholds'.unique hholds''
        refine (htypes i (a, commandFrom thiz.allocated len packet) ?_).1 htype
        rw [Function.update_self, List.mem_append]
        exact Or.inr List.mem_cons_self

end Waiting

/-- **One call** leaves no command that waits for ever exactly when it queues none for the
current. -/
theorem queuesAnswered_iff (thiz : PacketTransfer) (event : Event) (h : OnlyAnswered thiz) :
    QueuesAnswered thiz event ↔ ¬ QueuesCurrent thiz event := by
  constructor
  · intro hanswered hqueues
    obtain ⟨o, hstep, hnot⟩ := hqueues.not_onlyAnswered h
    exact hnot (hanswered o hstep)
  · exact fun hqueues o hstep => h.step hstep hqueues

/-- **In every run, the lists hold answerable commands** after every call, as long as no call queues
one for the current. -/
theorem only_answered_iff (board : GatherBoard) (lists : Fin nodeNum → Bool)
    (events : List Event) :
    Along PacketTransfer.step QueuesAnswered (packetTransferCreate board lists) events ↔
      Along PacketTransfer.step (fun thiz event => ¬ QueuesCurrent thiz event)
        (packetTransferCreate board lists) events :=
  along_iff_of_kept (fun _ _ o _ hanswered hstep => hanswered o hstep) queuesAnswered_iff
    (onlyAnswered_create board lists) events

/-- The host asks the first node for its current. -/
def askCurrent : List UInt8 :=
  [0, 16, 1, 0x7E, 0x44, 0, 0, 1, 0, 0, 2, 0x22, 6, 0x39, 0, 0, 0, 0x7E]

/-- An environment with memory for a node. -/
def roomyEnv : CallEnv := { generousEnv with place := some ⟨0, nodePlaces_pos⟩ }

/-- The command is put into the first list: the case that would skip this falls through. -/
theorem askCurrent_waits :
    ¬ Along PacketTransfer.step QueuesAnswered (packetTransferCreate willingBoard fun _ => true)
      [.connect 4 askCurrent, .command roomyEnv] := by
  rintro ⟨-, h⟩
  obtain ⟨hanswered, -⟩ := h _ rfl
  have hbefore : OnlyAnswered (openConnection (packetTransferCreate willingBoard fun _ => true) 4
      askCurrent) := onlyAnswered_create willingBoard fun _ => true
  refine (queuesAnswered_iff _ _ hbefore).1 hanswered ⟨_, ⟨_, _, _, rfl, rfl⟩, rfl, ?_⟩
  exact ⟨by decide, ⟨0, _⟩, _, _, rfl, rfl, rfl, rfl⟩

end Wsn
