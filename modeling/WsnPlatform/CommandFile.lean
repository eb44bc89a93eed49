/-
**The command file.**

`deployer_parse_telnet` reads the command file into `telnet_command_list`, one command for each line
that is not empty.  A line is put into the list when its newline is read.  The character is kept in
a `char`, where the byte `0xFF` is the same as `EOF`.

Main definitions:

* `readCommands` — the loop;
* `CommandsRead` — the list holds the nonempty lines of the file, each followed by CR LF;
* `ReadsAll` — the files and allocations with which nothing is lost.

Main results:

* `readCommands_lines` — what the loop puts into the list;
* `readCommands_isOk` — the files for which the loop ends;
* `commandsRead_iff` — the list holds every line exactly if nothing is lost.
-/

import WsnPlatform.DList
import WsnPlatform.CScan
import WsnPlatform.FixedBuffer
import WsnPlatform.LineScan
import WsnPlatform.CText

set_option relaxedAutoImplicit false
set_option autoImplicit false

namespace Wsn

open FixedBuffer CScan LineScan

/-! ### The loop -/

/-- `COMMAND_BUFFER_SIZE`. -/
def commandBufferSize : ℕ := 100

/-- `'\n'`. -/
def newline : UInt8 := 10

/-- The byte that compares equal to `EOF`, as a `char` is signed. -/
def eofByte : UInt8 := 255

/-- What the allocations for the `k`th command return. -/
structure CommandAllocs where
  strdup : ℕ → Bool
  /-- The place of the list node. -/
  place : ℕ → Option Addr

/-- The variables of the loop, with the list and its nodes. -/
structure CommandReader where
  index : ℕ
  buffer : List.Vector UInt8 commandBufferSize
  mem : Mem (Option CText)
  /-- `telnet_command_list`. -/
  list : Option DList
  /-- The number of commands handed to `strdup` so far. -/
  count : ℕ

/-- A line ends: CR, LF and a NUL are put behind it, and it is put into the list.  The return code
of `dlist_append` is not looked at. -/
def addCommand (env : CommandAllocs) (v : CommandReader) : Exec CommandReader := do
  let buffer ← stored (copyAt v.buffer v.index [13, 10, 0])
  let text ← stored (cString buffer.toList)
  let command := if env.strdup v.count then some text else none
  let r ← dlistAppend v.mem v.list (env.place v.count) command
  .ok ⟨0, buffer, r.2.1, r.2.2, v.count + 1⟩

/-- A character of the file. -/
def commandChar (env : CommandAllocs) (c : UInt8) (v : CommandReader) : Exec CommandReader :=
  if c = newline then
    if v.index ≠ 0 then addCommand env v else .ok v
  else do
    let buffer ← stored (copyAt v.buffer v.index [c])
    .ok { v with index := v.index + 1, buffer := buffer }

/-- **The loop of `deployer_parse_telnet`** over the command file. -/
def readCommands (env : CommandAllocs) : List UInt8 → CommandReader → Exec CommandReader
  | [], v => .ok v
  | c :: file, v =>
      if c = eofByte then .ok v
      else do
        let v ← commandChar env c v
        readCommands env file v

/-- The variables before the loop: the list is empty. -/
def readerStart (buffer : List.Vector UInt8 commandBufferSize) (m : Mem (Option CText)) :
    CommandReader := ⟨0, buffer, m, some (dlistCreate true), 0⟩

/-! ### What is to be read -/

/-- A command: the line, followed by CR LF. -/
def commandOf (line : List UInt8) : CText := line ++ crlf

/-- **Files with lines of at most 97 bytes**, none of them NUL. -/
def ShortLines (file : List UInt8) : Prop :=
  ∀ line ∈ file.splitOn newline, line.length ≤ 97 ∧ 0 ∉ line

instance (file : List UInt8) : Decidable (ShortLines file) :=
  inferInstanceAs (Decidable (∀ line ∈ file.splitOn newline, line.length ≤ 97 ∧ 0 ∉ line))

/-- **The list holds the nonempty lines of the file**, in order, each followed by CR LF. -/
def CommandsRead (env : CommandAllocs) (buffer : List.Vector UInt8 commandBufferSize)
    (m : Mem (Option CText)) (file : List UInt8) : Prop :=
  ∃ v l cells, readCommands env file (readerStart buffer m) = .ok v ∧ v.list = some l ∧
    l.Represents v.mem cells ∧
      cells.map Prod.snd = (lines newline file).map fun line => some (commandOf line)

/-- The allocations for the next `n` commands succeed, from the `k`th on: each list node gets a
place that is not in use. -/
def Allocated (env : CommandAllocs) : (Addr → Prop) → ℕ → ℕ → Prop
  | _, _, 0 => True
  | used, k, n + 1 => env.strdup k = true ∧
      ∃ a, env.place k = some a ∧ ¬ used a ∧ Allocated env (fun b => used b ∨ b = a) (k + 1) n

/-- The places in use. -/
def Mem.Used {α : Type} (m : Mem α) (a : Addr) : Prop := m.nodes a ≠ none

/-- **Nothing is lost**: no byte of the file is taken for `EOF`, the last line has its newline, and
no allocation fails. -/
def ReadsAll (env : CommandAllocs) (m : Mem (Option CText)) (file : List UInt8) : Prop :=
  eofByte ∉ file ∧ Ended newline file ∧ Allocated env m.Used 0 (lines newline file).length

/-! ### A line is added -/

theorem Allocated.congr {env : CommandAllocs} {used used' : Addr → Prop}
    (h : ∀ a, used a ↔ used' a) (k n : ℕ) : Allocated env used k n ↔ Allocated env used' k n := by
  have heq : used = used' := funext fun a => propext (h a)
  rw [heq]

/-- The next command gets its copy and its list node. -/
theorem allocated_succ_iff {env : CommandAllocs} {used : Addr → Prop} {k n : ℕ} {a : Addr}
    (hplace : env.place k = some a) (hunused : ¬ used a) :
    Allocated env used k (n + 1) ↔
      env.strdup k = true ∧ Allocated env (fun b => used b ∨ b = a) (k + 1) n := by
  constructor
  · rintro ⟨hdup, b, hb, -, hrest⟩
    rw [hplace] at hb
    cases hb
    exact ⟨hdup, hrest⟩
  · rintro ⟨hdup, hrest⟩
    exact ⟨hdup, a, hplace, hunused, hrest⟩

theorem duplicate_eq_some {dup : Bool} {text : CText} :
    (if dup then some text else none) = some text ↔ dup = true := by
  cases dup <;> simp

/-- The line in the buffer is the string that is duplicated. -/
theorem cString_command {line : List UInt8} (h : 0 ∉ line) (rest : List UInt8) :
    cString (line ++ [13, 10, 0] ++ rest) = some (commandOf line) := by
  have hcommand : 0 ∉ commandOf line := by
    simpa [commandOf, crlf_eq] using h
  have happend := cString_append hcommand (0 :: rest)
  rw [cString_nul] at happend
  simpa [commandOf, crlf_eq] using happend

/-- A list that has got a node behind the others uses the place of that node as well. -/
theorem used_append {α : Type} {m m' : Mem α} {l l' : DList} {cells : List (Addr × α)} {a : Addr}
    {x : α} (hrep : l.Represents m cells) (hrep' : l'.Represents m' (cells ++ [(a, x)]))
    (hframe : ∀ b, b ∉ (cells ++ [(a, x)]).map Prod.fst → m'.nodes b = m.nodes b) (b : Addr) :
    m'.Used b ↔ m.Used b ∨ b = a := by
  by_cases hb : b ∈ (cells ++ [(a, x)]).map Prod.fst
  · have hused : m'.Used b := hrep'.mem_store hb
    refine iff_of_true hused ?_
    rw [List.map_append, List.mem_append] at hb
    rcases hb with hb | hb
    · exact Or.inl (hrep.mem_store hb)
    · exact Or.inr (List.mem_singleton.1 hb)
  · have hba : b ≠ a := by
      rintro rfl
      exact hb (by rw [List.map_append]; exact List.mem_append_right _ (List.mem_singleton_self b))
    simp only [Mem.Used, hframe b hb, hba, or_false]

/-- **The buffer holds the line** that is being collected. -/
structure Collected (v : CommandReader) (line : List UInt8) : Prop where
  index : v.index = line.length
  front : v.buffer.toList.take v.index = line

theorem Collected.index_eq_zero {v : CommandReader} {line : List UInt8} (hv : Collected v line) :
    v.index = 0 ↔ line = [] := by
  rw [hv.index, List.length_eq_zero_iff]

section Lines

variable (env : CommandAllocs) {v : CommandReader} {l : DList} {cells : List (Addr × Option CText)}
  {line : List UInt8}

/-- **A line is handed to `strdup`**, and its copy to `dlist_append`. -/
theorem addCommand_eq (hlist : v.list = some l) (hfront : v.buffer.toList.take v.index = line)
    (hlen : v.index ≤ 97) :
    ∃ buffer text, (0 ∉ line → text = commandOf line) ∧
      addCommand env v = dlistAppend v.mem (some l) (env.place v.count)
        (if env.strdup v.count then some text else none) >>= fun r =>
          .ok ⟨0, buffer, r.2.1, r.2.2, v.count + 1⟩ := by
  obtain ⟨buffer, hcopy, hfront'⟩ := copyAt_behind [13, 10, 0] hfront
    (by simp only [commandBufferSize, List.length_cons, List.length_nil]; omega)
  have hsplit : buffer.toList = line ++ [13, 10, 0] ++ buffer.toList.drop (v.index + 3) := by
    have htake : buffer.toList.take (v.index + 3) = line ++ [13, 10, 0] := hfront'
    rw [← htake, List.take_append_drop]
  have hmem : 0 ∈ buffer.toList := by
    rw [hsplit]
    simp
  have htext : cString buffer.toList = some (buffer.toList.takeWhile (· != 0)) := if_pos hmem
  refine ⟨buffer, buffer.toList.takeWhile (· != 0), fun hnul => ?_, ?_⟩
  · have hstring := cString_command hnul (buffer.toList.drop (v.index + 3))
    rw [← hsplit, htext] at hstring
    exact Option.some.inj hstring
  · rw [addCommand, hcopy, stored_some, ok_bind, htext, stored_some, ok_bind, hlist]

/-- **A line is put into the list**, or lost with its list node. -/
theorem addCommand_spec (hlist : v.list = some l) (hrep : l.Represents v.mem cells)
    (hfront : v.buffer.toList.take v.index = line) (hlen : v.index ≤ 97) :
    ∃ v' l' text, addCommand env v = .ok v' ∧ v'.index = 0 ∧ v'.count = v.count + 1 ∧
      v'.list = some l' ∧ (0 ∉ line → text = commandOf line) ∧
        ((∃ a, env.place v.count = some a ∧ ¬ v.mem.Used a ∧
            l'.Represents v'.mem (cells ++ [(a, if env.strdup v.count then some text else none)]) ∧
            ∀ b, v'.mem.Used b ↔ v.mem.Used b ∨ b = a) ∨
          (∀ a, env.place v.count = some a → v.mem.Used a) ∧ l' = l ∧ v'.mem = v.mem) := by
  obtain ⟨buffer, text, hcommand, hrun⟩ := addCommand_eq env hlist hfront hlen
  by_cases hfree : ∃ a, env.place v.count = some a ∧ ¬ v.mem.Used a
  · obtain ⟨a, hplace, hunused⟩ := hfree
    obtain ⟨m', l', happend, hrep', -, -, hframe⟩ := dlistAppend_spec hrep (not_not.1 hunused)
      (if env.strdup v.count then some text else none)
    refine ⟨⟨0, buffer, m', some l', v.count + 1⟩, l', text, ?_, rfl, rfl, rfl, hcommand,
      Or.inl ⟨a, hplace, hunused, hrep', used_append hrep hrep' hframe⟩⟩
    rw [hrun, hplace, happend]
    rfl
  · have hused : ∀ a, env.place v.count = some a → v.mem.Used a := by
      intro a ha
      by_contra hno
      exact hfree ⟨a, ha, hno⟩
    refine ⟨⟨0, buffer, v.mem, some l, v.count + 1⟩, l, text, ?_, rfl, rfl, rfl, hcommand,
      Or.inr ⟨hused, rfl, rfl⟩⟩
    rw [hrun, dlistAppend, dlistInsert_oom l _ _ hused]
    rfl

/-- An empty line is passed over. -/
theorem commandChar_empty {c : UInt8} (hc : c = newline) (hindex : v.index = 0) :
    commandChar env c v = .ok v := by
  rw [commandChar, if_pos hc, if_neg (not_not.2 hindex)]

/-- A line ends. -/
theorem commandChar_line {c : UInt8} (hc : c = newline) (hindex : v.index ≠ 0) :
    commandChar env c v = addCommand env v := by
  rw [commandChar, if_pos hc, if_pos hindex]

/-- A character is put behind the line. -/
theorem commandChar_collect {c : UInt8} (hv : Collected v line) (hc : c ≠ newline)
    (hlen : line.length < commandBufferSize) :
    ∃ buffer, commandChar env c v = .ok { v with index := v.index + 1, buffer := buffer } ∧
      Collected { v with index := v.index + 1, buffer := buffer } (line ++ [c]) := by
  obtain ⟨buffer, hcopy, hfront⟩ := copyAt_behind [c] hv.front
    (by rw [hv.index, List.length_singleton]; exact hlen)
  refine ⟨buffer, ?_, ?_, hfront⟩
  · rw [commandChar, if_neg hc, hcopy, stored_some, ok_bind]
  · rw [List.length_append, List.length_singleton, ← hv.index]

end Lines

/-! ### The file is read -/

/-- **Lines are put into the list** behind its cells, as far as the allocations succeed. -/
def ReadsInto (env : CommandAllocs) (v : CommandReader) (cells : List (Addr × Option CText))
    (todo : List (List UInt8)) (run : Exec CommandReader) : Prop :=
  ∃ v' l' new, run = .ok v' ∧ v'.list = some l' ∧ l'.Represents v'.mem (cells ++ new) ∧
    new.length ≤ todo.length ∧
    (new.map Prod.snd = todo.map (fun t => some (commandOf t)) ↔
      Allocated env v.mem.Used v.count todo.length)

section Reads

variable {env : CommandAllocs} {v : CommandReader} {l : DList} {cells : List (Addr × Option CText)}
  {line : List UInt8} {todo : List (List UInt8)}

theorem readsInto_nil (hlist : v.list = some l) (hrep : l.Represents v.mem cells) :
    ReadsInto env v cells [] (.ok v) :=
  ⟨v, l, [], rfl, hlist, by rwa [List.append_nil], le_rfl, iff_of_true rfl trivial⟩

/-- **A line, and what is read behind it.** -/
theorem readsInto_line {rest : CommandReader → Exec CommandReader} (hlist : v.list = some l)
    (hrep : l.Represents v.mem cells) (hfront : v.buffer.toList.take v.index = line)
    (hlen : v.index ≤ 97) (hnul : 0 ∉ line)
    (hrest : ∀ v₁ l₁ cells₁, v₁.index = 0 → v₁.list = some l₁ → l₁.Represents v₁.mem cells₁ →
      ReadsInto env v₁ cells₁ todo (rest v₁)) :
    ReadsInto env v cells (line :: todo) (addCommand env v >>= rest) := by
  obtain ⟨v₁, l₁, text, hrun, hindex₁, hcount, hlist₁, htext, hcase⟩ :=
    addCommand_spec env hlist hrep hfront hlen
  rw [htext hnul] at hcase
  rw [hrun, ok_bind]
  rcases hcase with ⟨a, hplace, hunused, hrep₁, hused⟩ | ⟨hfull, rfl, hmem⟩
  · obtain ⟨v', l', new, hread, hlist', hrep', hlen', hiff⟩ := hrest v₁ l₁ _ hindex₁ hlist₁ hrep₁
    refine ⟨v', l', (a, if env.strdup v.count then some (commandOf line) else none) :: new,
      hread, hlist', ?_, Nat.succ_le_succ hlen', ?_⟩
    · rw [List.append_assoc] at hrep'
      exact hrep'
    · rw [hcount, Allocated.congr hused] at hiff
      rw [List.map_cons, List.map_cons, List.cons.injEq, duplicate_eq_some, hiff]
      exact (allocated_succ_iff hplace hunused).symm
  · rw [← hmem] at hrep
    obtain ⟨v', l', new, hread, hlist', hrep', hlen', hiff⟩ := hrest v₁ l₁ _ hindex₁ hlist₁ hrep
    refine ⟨v', l', new, hread, hlist', hrep', Nat.le_succ_of_le hlen', iff_of_false ?_ ?_⟩
    · -- one of the lines is missing
      intro heq
      have hlength := congrArg List.length heq
      rw [List.length_map, List.length_map, List.length_cons] at hlength
      omega
    · rintro ⟨-, a, hplace, hunused, -⟩
      exact hunused (hfull a hplace)

end Reads

/-- **The loop puts the lines that are closed into the list**, as far as the allocations succeed. -/
theorem readCommands_lines (env : CommandAllocs) (file : List UInt8) {v : CommandReader} {l : DList}
    {cells : List (Addr × Option CText)} {line : List UInt8} (hlist : v.list = some l)
    (hrep : l.Represents v.mem cells) (hv : Collected v line) (hsep : newline ∉ line)
    (hshort : ∀ t ∈ (line ++ file).splitOn newline, t.length ≤ 97 ∧ 0 ∉ t) :
    ReadsInto env v cells (closed newline eofByte line file) (readCommands env file v) := by
  induction file generalizing v l cells line with
  | nil => exact readsInto_nil hlist hrep
  | cons c file ih =>
      rw [readCommands, closed]
      by_cases heof : c = eofByte
      · rw [if_pos heof, if_pos heof]
        exact readsInto_nil hlist hrep
      rw [if_neg heof, if_neg heof]
      by_cases hc : c = newline
      · rw [hc, List.splitOn_append_cons_self_of_not_mem hsep] at hshort
        have hline := hshort line List.mem_cons_self
        have hrest : ∀ t ∈ ([] ++ file).splitOn newline, t.length ≤ 97 ∧ 0 ∉ t :=
          fun t ht => hshort t (List.mem_cons_of_mem line ht)
        rw [if_pos hc]
        by_cases hnil : line = []
        · rw [if_pos hnil, commandChar_empty env hc (hv.index_eq_zero.2 hnil), ok_bind]
          rw [hnil] at hv
          exact ih hlist hrep hv List.not_mem_nil hrest
        · rw [if_neg hnil, commandChar_line env hc (mt hv.index_eq_zero.1 hnil)]
          refine readsInto_line hlist hrep hv.front (by rw [hv.index]; exact hline.1) hline.2
            fun v₁ l₁ cells₁ hindex₁ hlist₁ hrep₁ => ?_
          have hv₁ : Collected v₁ [] := ⟨hindex₁, by rw [hindex₁, List.take_zero]⟩
          exact ih hlist₁ hrep₁ hv₁ List.not_mem_nil hrest
      · rw [if_neg hc]
        have hlong : line.length < commandBufferSize := by
          obtain ⟨first, hfirst, hprefix⟩ := exists_first hsep (c :: file)
          have hle := hprefix.length_le.trans (hshort first hfirst).1
          simp only [commandBufferSize]
          omega
        obtain ⟨buffer, hrun, hv₁⟩ := commandChar_collect env hv hc hlong
        have hline : newline ∉ line ++ [c] := by
          simp [hsep, Ne.symm hc]
        rw [List.append_cons] at hshort
        rw [hrun, ok_bind]
        exact ih hlist hrep hv₁ hline hshort

/-- The lines of the file fit into the buffer, with CR, LF and NUL behind each that ends; the first
argument counts the bytes in the buffer. -/
def bufferHolds : ℕ → List UInt8 → Bool
  | _, [] => true
  | index, c :: file =>
      if c = eofByte then true
      else if c = newline then
        if index = 0 then bufferHolds 0 file
        else decide (index + 3 ≤ commandBufferSize) && bufferHolds 0 file
      else decide (index < commandBufferSize) && bufferHolds (index + 1) file

/-- A line without room for its end is stored behind the buffer, -/
theorem addCommand_overrun (env : CommandAllocs) {v : CommandReader}
    (h : commandBufferSize < v.index + 3) : addCommand env v = .error .outOfBounds := by
  have hcopy : copyAt v.buffer v.index [13, 10, 0] = none :=
    copyAt_eq_none.2 (by simpa only [List.length_cons, List.length_nil] using h)
  rw [addCommand, hcopy, stored_none, error_bind]

/-- and so is a character that has no room. -/
theorem commandChar_overrun (env : CommandAllocs) {c : UInt8} {v : CommandReader} (hc : c ≠ newline)
    (h : commandBufferSize ≤ v.index) : commandChar env c v = .error .outOfBounds := by
  have hcopy : copyAt v.buffer v.index [c] = none :=
    copyAt_eq_none.2 (by rw [List.length_singleton]; omega)
  rw [commandChar, if_neg hc, hcopy, stored_none, error_bind]

/-- **The loop ends** exactly if the lines fit into the buffer. -/
theorem readCommands_isOk (env : CommandAllocs) (file : List UInt8) {v : CommandReader} {l : DList}
    {cells : List (Addr × Option CText)} (hlist : v.list = some l)
    (hrep : l.Represents v.mem cells) :
    (∃ v', readCommands env file v = .ok v') ↔ bufferHolds v.index file = true := by
  induction file generalizing v l cells with
  | nil => exact iff_of_true ⟨v, rfl⟩ rfl
  | cons c file ih =>
      rw [readCommands, bufferHolds]
      by_cases heof : c = eofByte
      · rw [if_pos heof, if_pos heof]
        exact iff_of_true ⟨v, rfl⟩ rfl
      rw [if_neg heof, if_neg heof]
      by_cases hc : c = newline
      · rw [if_pos hc]
        by_cases hindex : v.index = 0
        · rw [commandChar_empty env hc hindex, if_pos hindex, ok_bind, ← hindex]
          exact ih hlist hrep
        rw [commandChar_line env hc hindex, if_neg hindex, Bool.and_eq_true, decide_eq_true_iff]
        by_cases hroom : v.index + 3 ≤ commandBufferSize
        · obtain ⟨v₁, l₁, text, hrun, hindex₁, -, hlist₁, -, hcase⟩ :=
            addCommand_spec env hlist hrep rfl
              (by simp only [commandBufferSize] at hroom; omega)
          have hrep₁ : ∃ cells₁, l₁.Represents v₁.mem cells₁ := by
            rcases hcase with ⟨a, -, -, hrep₁, -⟩ | ⟨-, rfl, hmem⟩
            · exact ⟨_, hrep₁⟩
            · rw [hmem]
              exact ⟨cells, hrep⟩
          obtain ⟨cells₁, hrep₁⟩ := hrep₁
          rw [hrun, ok_bind, ih hlist₁ hrep₁, hindex₁]
          exact ⟨fun h => ⟨hroom, h⟩, And.right⟩
        · rw [addCommand_overrun env (not_le.1 hroom), error_bind]
          refine iff_of_false ?_ fun h => hroom h.1
          rintro ⟨v', hv'⟩
          cases hv'
      · rw [if_neg hc, Bool.and_eq_true, decide_eq_true_iff]
        by_cases hroom : v.index < commandBufferSize
        · obtain ⟨buffer, hcopy⟩ := copyAt_isSome v.buffer
            (show v.index + [c].length ≤ commandBufferSize from hroom)
          rw [commandChar, if_neg hc, hcopy, stored_some, ok_bind, ok_bind]
          have hih := ih (v := ⟨v.index + 1, buffer, v.mem, v.list, v.count⟩) hlist hrep
          exact hih.trans ⟨fun h => ⟨hroom, h⟩, And.right⟩
        · rw [commandChar_overrun env hc (not_lt.1 hroom), error_bind]
          refine iff_of_false ?_ fun h => hroom h.1
          rintro ⟨v', hv'⟩
          cases hv'

/-- **When the command file is read as a list of its lines**: exactly if nothing is lost. -/
theorem commandsRead_iff (env : CommandAllocs) (buffer : List.Vector UInt8 commandBufferSize)
    (m : Mem (Option CText)) {file : List UInt8} (hfile : ShortLines file) :
    CommandsRead env buffer m file ↔ ReadsAll env m file := by
  have hstart : Collected (readerStart buffer m) [] := ⟨rfl, List.take_zero⟩
  obtain ⟨v, l, new, hrun, hlist, hrep, hlen, hiff⟩ :=
    readCommands_lines env file (v := readerStart buffer m) rfl
      (represents_create m true) hstart List.not_mem_nil hfile
  have hprefix : closed newline eofByte [] file <+: lines newline file :=
    closed_prefix eofByte List.not_mem_nil file
  have hall : closed newline eofByte [] file = lines newline file ↔
      eofByte ∉ file ∧ Ended newline file :=
    closed_eq_iff (by decide) List.not_mem_nil file
  constructor
  · rintro ⟨v', l', cells, hrun', hlist', hrep', hcells⟩
    rw [hrun] at hrun'
    cases hrun'
    rw [hlist] at hlist'
    cases hlist'
    have heq : [] ++ new = cells := hrep.unique hrep'
    rw [List.nil_append] at heq
    rw [← heq] at hcells
    have hsame : closed newline eofByte [] file = lines newline file := by
      refine hprefix.eq_of_length_le ?_
      have hlength := congrArg List.length hcells
      rw [List.length_map, List.length_map] at hlength
      omega
    rw [hsame] at hiff
    obtain ⟨heof, hended⟩ := hall.1 hsame
    exact ⟨heof, hended, hiff.1 hcells⟩
  · rintro ⟨heof, hended, halloc⟩
    have hsame := hall.2 ⟨heof, hended⟩
    rw [hsame] at hiff
    exact ⟨v, l, new, hrun, hlist, hrep, hiff.2 halloc⟩

/-- Allocations that succeed. -/
def allocsSucceed : CommandAllocs where
  strdup := fun _ => true
  place := fun k => if h : k < nodePlaces then some ⟨k, h⟩ else none

def zeroCommandBuffer : List.Vector UInt8 commandBufferSize :=
  List.Vector.replicate commandBufferSize 0

/-- A file of two commands. -/
theorem twoCommands_read :
    CommandsRead allocsSucceed zeroCommandBuffer .empty (literal "ls\n\npwd\n") := by
  refine (commandsRead_iff allocsSucceed zeroCommandBuffer .empty (by decide)).2
    ⟨by decide, Or.inr (by decide), ?_⟩
  have hlines : (lines newline (literal "ls\n\npwd\n")).length = 2 := by decide
  rw [hlines]
  have hempty : ∀ a, ¬ (Mem.empty : Mem (Option CText)).Used a := fun a h => h rfl
  refine ⟨rfl, ⟨0, nodePlaces_pos⟩, rfl, hempty _, rfl, ⟨1, by decide⟩, rfl, ?_, trivial⟩
  rintro (hused | heq)
  · exact hempty _ hused
  · cases heq

/-- The last command of a file is lost when no newline follows it. -/
theorem unterminatedCommand_lost :
    ¬ CommandsRead allocsSucceed zeroCommandBuffer .empty (literal "reboot") := by
  rintro ⟨v, l, cells, hrun, hlist, hrep, hcells⟩
  have hstart : Collected (readerStart zeroCommandBuffer .empty) [] := ⟨rfl, List.take_zero⟩
  obtain ⟨v', l', new, hrun', hlist', hrep', hlen, -⟩ :=
    readCommands_lines allocsSucceed (literal "reboot") (v := readerStart zeroCommandBuffer .empty)
      rfl (represents_create _ true) hstart List.not_mem_nil (by decide)
  rw [hrun] at hrun'
  cases hrun'
  rw [hlist] at hlist'
  cases hlist'
  have hnone : (closed newline eofByte [] (literal "reboot")).length = 0 := by decide
  have hnew : new = [] := List.length_eq_zero_iff.1 (by omega)
  rw [hnew] at hrep'
  rw [hrep.unique hrep'] at hcells
  exact absurd hcells (by decide)

end Wsn
