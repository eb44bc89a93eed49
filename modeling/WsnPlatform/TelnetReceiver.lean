/-
**The receiver of libtelnet.**

`telnet_recv` is handed what `recv` returned, and takes the bytes one by one through the states of
the protocol.  Data is not handed on byte by byte: the function keeps the place at which the data of
its buffer starts, and hands on what lies between it and the next command or the end.

A subnegotiation is collected in a buffer of its own, which grows in steps up to 16384 bytes.

Main definitions:

* `Telnet.bufferByte`, `processLoop`, `telnetRecv` — the functions of the source;
* `Telnet.feed` — what a single byte comes to, with data handed on at once;
* `TelnetEvent.atoms` — data broken down into its bytes.

Main results:

* `telnetRecv_plain` — bytes without a command are handed on as data;
* `telnetRecv_cuts` — the receiver does what the machine for single bytes does;
* `telnetRecv_segments` — **how the network cuts the stream does not matter**;
* `telnetRecv_room` — the buffer of a subnegotiation is never written outside its allocation.
-/

import WsnPlatform.TelnetMssp
import WsnPlatform.Transducer

set_option relaxedAutoImplicit false
set_option autoImplicit false

namespace Wsn

open QMethod (State)

/-! ### The functions of the source -/

/-- `TELNET_SB`. -/
def telnetSb : UInt8 := 250

/-- `TELNET_SE`. -/
def telnetSe : UInt8 := 240

/-- `_buffer_sizes`. -/
def bufferSizes : List ℕ := [0, 512, 2048, 8192, 16384]

/-- The size that comes behind; there is none behind the last size. -/
def nextBufferSize (size : ℕ) : Option ℕ :=
  (bufferSizes.findIdx? fun s => s = size).bind fun i => bufferSizes[i + 1]?

/-- The byte is stored. -/
def Telnet.pushByte (telnet : Telnet) (byte : UInt8) : Telnet :=
  { telnet with buffer := telnet.buffer ++ [byte] }

/-- **`_buffer_byte`**: the state, the events, and whether the result is `TELNET_EOK`. -/
def Telnet.bufferByte (mem : ℕ → Bool) (telnet : Telnet) (byte : UInt8) :
    Telnet × List TelnetEvent × Bool :=
  if telnet.buffer.length = telnet.bufferSize then
    match nextBufferSize telnet.bufferSize with
    | none => (telnet, [.warning "subnegotiation buffer size limit reached"], false)
    | some size =>
        if mem telnet.allocs then
          ({ telnet.alloc with bufferSize := size }.pushByte byte, [], true)
        else (telnet.alloc, [.warning "realloc() failed"], false)
  else (telnet.pushByte byte, [], true)

/-- `telnet` is in the state. -/
def Telnet.goto (telnet : Telnet) (state : TelnetRecvState) : Telnet := { telnet with state := state }

/-- The state `TELNET_STATE_IAC`. -/
def Telnet.processIac (telnet : Telnet) (byte : UInt8) : Telnet × List TelnetEvent :=
  if byte = telnetSb then (telnet.goto .sb, [])
  else if byte = Verb.will.byte then (telnet.goto (.negotiating .will), [])
  else if byte = Verb.wont.byte then (telnet.goto (.negotiating .wont), [])
  else if byte = Verb.doIt.byte then (telnet.goto (.negotiating .doIt), [])
  else if byte = Verb.dont.byte then (telnet.goto (.negotiating .dont), [])
  else if byte = telnetIac then (telnet.goto .data, [.data [byte]])
  else (telnet.goto .data, [.iac byte])

/-- A byte of a subnegotiation is stored; without room for it the rest is taken for data. -/
def Telnet.processSbByte (mem : ℕ → Bool) (telnet : Telnet) (byte : UInt8) :
    Telnet × List TelnetEvent :=
  let r := telnet.bufferByte mem byte
  if r.2.2 then (r.1.goto .sbData, r.2.1) else (r.1.goto .data, r.2.1)

/-- The state `TELNET_STATE_SB_DATA_IAC`.  The last component tells whether `telnet_recv` is to be
called for the rest. -/
def Telnet.processSbIac (mem : ℕ → Bool) (telnet : Telnet) (byte : UInt8) :
    Telnet × List TelnetEvent × Bool :=
  if byte = telnetSe then (telnet.goto .data).subnegotiate mem
  else if byte = telnetIac then
    ((telnet.processSbByte mem telnetIac).1, (telnet.processSbByte mem telnetIac).2, false)
  else
    let warning : TelnetEvent :=
      .warning s!"unexpected byte after IAC inside SB: {byte.toNat}"
    let r := (telnet.goto .iac).subnegotiate mem
    if r.2.2 then (r.1, warning :: r.2.1, true)
    -- the byte is processed by a call of `_process` for it alone
    else ((r.1.processIac byte).1, warning :: r.2.1 ++ (r.1.processIac byte).2, false)

/-- A byte in a state other than `TELNET_STATE_DATA`. -/
def Telnet.command (mem : ℕ → Bool) (telnet : Telnet) (byte : UInt8) :
    Telnet × List TelnetEvent × Bool :=
  match telnet.state with
  | .data => (telnet, [], false)
  | .iac => ((telnet.processIac byte).1, (telnet.processIac byte).2, false)
  | .negotiating cmd =>
      let r := telnet.negotiate mem cmd byte
      (r.1.goto .data, r.2, false)
  | .sb => ({ telnet with sbTelopt := byte, buffer := [], state := .sbData }, [], false)
  | .sbData =>
      if byte = telnetIac then (telnet.goto .sbDataIac, [], false)
      else ((telnet.processSbByte mem byte).1, (telnet.processSbByte mem byte).2, false)
  | .sbDataIac => telnet.processSbIac mem byte

/-- The data between two places of the buffer, if there is some. -/
def pendingData (buffer : List UInt8) (start i : ℕ) : List TelnetEvent :=
  if i ≠ start then [.data ((buffer.drop start).take (i - start))] else []

/-- **`_process`**: the bytes from `i` on, with the data of the buffer from `start` on not yet handed
on.  The source keeps `start` as it is where it means nothing, outside `TELNET_STATE_DATA`. -/
def processLoop (mem : ℕ → Bool) :
    List UInt8 → List UInt8 → ℕ → ℕ → Telnet → Telnet × List TelnetEvent
  | buffer, [], i, start, telnet =>
      (telnet, if telnet.state = .data then pendingData buffer start i else [])
  | buffer, byte :: rest, i, start, telnet =>
      if telnet.state = .data then
        if byte = telnetIac then
          let s := processLoop mem buffer rest (i + 1) start (telnet.goto .iac)
          (s.1, pendingData buffer start i ++ s.2)
        else processLoop mem buffer rest (i + 1) start telnet
      else
        let r := telnet.command mem byte
        let s :=
          if r.2.2 then processLoop mem rest rest 0 0 r.1
          else
            processLoop mem buffer rest (i + 1) (if r.1.state = .data then i + 1 else start) r.1
        (s.1, r.2.1 ++ s.2)

/-- **`telnet_recv`.** -/
def telnetRecv (mem : ℕ → Bool) (telnet : Telnet) (buffer : List UInt8) :
    Telnet × List TelnetEvent :=
  processLoop mem buffer buffer 0 0 telnet

/-- Bytes without a `TELNET_IAC` are data. -/
theorem processLoop_plain (mem : ℕ → Bool) (buffer : List UInt8) {rest : List UInt8} (i start : ℕ)
    {telnet : Telnet} (hstate : telnet.state = .data) (h : telnetIac ∉ rest) :
    processLoop mem buffer rest i start telnet =
      (telnet, pendingData buffer start (i + rest.length)) := by
  induction rest generalizing i with
  | nil => rw [processLoop, if_pos hstate, List.length_nil, Nat.add_zero]
  | cons byte rest ih =>
      rw [List.mem_cons, not_or] at h
      rw [processLoop, if_pos hstate, if_neg (Ne.symm h.1), ih (i + 1) h.2, List.length_cons]
      congr 2
      omega

/-- They leave the state alone, and nothing but data is handed on. -/
theorem telnetRecv_plain (mem : ℕ → Bool) {telnet : Telnet} {bytes : List UInt8}
    (hstate : telnet.state = .data) (h : telnetIac ∉ bytes) :
    telnetRecv mem telnet bytes = (telnet, pendingData bytes 0 bytes.length) := by
  rw [telnetRecv, processLoop_plain mem bytes 0 0 hstate h, Nat.zero_add]

/-! ### Byte by byte -/

/-- What a single byte comes to, when data is handed on at once. -/
def Telnet.feed (mem : ℕ → Bool) (telnet : Telnet) (byte : UInt8) : Telnet × List TelnetEvent :=
  if telnet.state = .data then
    if byte = telnetIac then (telnet.goto .iac, []) else (telnet, [.data [byte]])
  else ((telnet.command mem byte).1, (telnet.command mem byte).2.1)

/-- Data broken down into its bytes. -/
def TelnetEvent.atoms : TelnetEvent → List TelnetEvent
  | .data buffer => buffer.map fun b => .data [b]
  | e => [e]

/-- One byte more of data is pending. -/
theorem atoms_pendingData_succ {buffer rest : List UInt8} {byte : UInt8} {start i : ℕ}
    (hrest : buffer.drop i = byte :: rest) (hstart : start ≤ i) :
    (pendingData buffer start (i + 1)).flatMap TelnetEvent.atoms =
      (pendingData buffer start i).flatMap TelnetEvent.atoms ++ [.data [byte]] := by
  have hbyte : (buffer.drop start)[i - start]? = some byte := by
    rw [List.getElem?_drop, Nat.add_sub_cancel' hstart, ← List.head?_drop, hrest]
    rfl
  have hne : i + 1 ≠ start := by omega
  have hsub : i + 1 - start = i - start + 1 := by omega
  have htake : (buffer.drop start).take (i + 1 - start) =
      (buffer.drop start).take (i - start) ++ [byte] := by
    rw [hsub, List.take_add_one, hbyte]
    rfl
  rw [pendingData, if_pos hne, htake]
  by_cases hi : i = start
  · subst hi
    simp [pendingData, TelnetEvent.atoms]
  · rw [pendingData, if_pos hi]
    simp [TelnetEvent.atoms]

theorem drop_succ_of_drop {buffer rest : List UInt8} {byte : UInt8} {i : ℕ}
    (h : buffer.drop i = byte :: rest) : buffer.drop (i + 1) = rest := by
  rw [← List.tail_drop, h, List.tail_cons]

/-- The loop, from any place on: what is pending, and then what the bytes come to. -/
theorem processLoop_eq (mem : ℕ → Bool) {buffer rest : List UInt8} {i : ℕ} (start : ℕ) (telnet : Telnet)
    (hrest : buffer.drop i = rest) (hstart : telnet.state = .data → start ≤ i) :
    (processLoop mem buffer rest i start telnet).1 =
        (Transducer.run (Telnet.feed mem) telnet rest).1 ∧
      (processLoop mem buffer rest i start telnet).2.flatMap TelnetEvent.atoms =
        (if telnet.state = .data then pendingData buffer start i else []).flatMap TelnetEvent.atoms ++
          (Transducer.run (Telnet.feed mem) telnet rest).2.flatMap TelnetEvent.atoms := by
  induction rest generalizing buffer i start telnet with
  | nil => simp [processLoop]
  | cons byte rest ih =>
      have hnext := drop_succ_of_drop hrest
      rw [processLoop, Transducer.run_cons]
      by_cases hdata : telnet.state = .data
      · rw [if_pos hdata, if_pos hdata]
        by_cases hiac : byte = telnetIac
        · have hfeed : telnet.feed mem byte = (telnet.goto .iac, []) := by
            rw [Telnet.feed, if_pos hdata, if_pos hiac]
          have hstate : (telnet.goto .iac).state ≠ .data := by simp [Telnet.goto]
          obtain ⟨hfst, hsnd⟩ := ih start _ hnext (fun h => absurd h hstate)
          rw [if_neg hstate] at hsnd
          rw [if_pos hiac, hfeed, List.flatMap_append, hfst, hsnd]
          exact ⟨rfl, by simp⟩
        · have hfeed : telnet.feed mem byte = (telnet, [.data [byte]]) := by
            rw [Telnet.feed, if_pos hdata, if_neg hiac]
          have hle := hstart hdata
          obtain ⟨hfst, hsnd⟩ := ih start _ hnext (fun _ => Nat.le_succ_of_le hle)
          rw [if_pos hdata, atoms_pendingData_succ hrest hle] at hsnd
          rw [if_neg hiac, hfeed, hfst, hsnd]
          exact ⟨rfl, by simp [TelnetEvent.atoms]⟩
      · have hfeed : telnet.feed mem byte =
            ((telnet.command mem byte).1, (telnet.command mem byte).2.1) := by
          rw [Telnet.feed, if_neg hdata]
        rw [if_neg hdata, if_neg hdata, hfeed]
        dsimp only
        generalize telnet.command mem byte = r
        by_cases hagain : r.2.2 = true
        · obtain ⟨hfst, hsnd⟩ := ih 0 r.1
            (show rest.drop 0 = rest from rfl) (fun _ => le_refl 0)
          have hnone : (if r.1.state = .data then pendingData rest 0 0 else []) = [] := by
            simp [pendingData]
          rw [hnone] at hsnd
          rw [if_pos hagain, List.flatMap_append, List.flatMap_append, hfst, hsnd]
          exact ⟨rfl, by simp⟩
        · obtain ⟨hfst, hsnd⟩ := ih (if r.1.state = .data then i + 1 else start)
            r.1 hnext (fun h => by rw [if_pos h])
          have hnone : (if r.1.state = .data then pendingData buffer
              (if r.1.state = .data then i + 1 else start) (i + 1) else []) = [] := by
            split
            · simp [pendingData]
            · rfl
          rw [hnone] at hsnd
          rw [if_neg hagain, List.flatMap_append, List.flatMap_append, hfst, hsnd]
          exact ⟨rfl, by simp⟩

/-- **The receiver does what the machine for single bytes does.** -/
theorem telnetRecv_cuts (mem : ℕ → Bool) :
    Transducer.Cuts TelnetEvent.atoms (Telnet.feed mem) (telnetRecv mem) := by
  intro telnet buffer
  obtain ⟨hfst, hsnd⟩ := processLoop_eq mem 0 telnet
    (show buffer.drop 0 = buffer from rfl) (fun _ => le_refl 0)
  have hnone : (if telnet.state = .data then pendingData buffer 0 0 else []) = [] := by
    simp [pendingData]
  rw [hnone] at hsnd
  exact ⟨hfst, hsnd⟩

/-- **How the network cuts the stream does not matter**: the state behind it is the same, and so is
what was handed to the event handler, but for where data was cut. -/
theorem telnetRecv_segments (mem : ℕ → Bool) (telnet : Telnet) (pieces : List (List UInt8)) :
    (Transducer.run (telnetRecv mem) telnet pieces).1 = (telnetRecv mem telnet pieces.flatten).1 ∧
      (Transducer.run (telnetRecv mem) telnet pieces).2.flatMap TelnetEvent.atoms =
        (telnetRecv mem telnet pieces.flatten).2.flatMap TelnetEvent.atoms := by
  obtain ⟨hfst, hsnd⟩ := (telnetRecv_cuts mem).run_flatten telnet pieces
  obtain ⟨hfst', hsnd'⟩ := telnetRecv_cuts mem telnet pieces.flatten
  exact ⟨hfst.trans hfst'.symm, hsnd.trans hsnd'.symm⟩

/-! ### The buffer of a subnegotiation -/

/-- What taking a subnegotiation apart leaves of the state: everything but the contents of the
buffer. -/
structure SameShape (telnet telnet' : Telnet) : Prop where
  telopts : telnet'.telopts = telnet.telopts
  proxy : telnet'.proxy = telnet.proxy
  q : telnet'.q = telnet.q
  length : telnet'.buffer.length = telnet.buffer.length
  bufferSize : telnet'.bufferSize = telnet.bufferSize
  state : telnet'.state = telnet.state
  sbTelopt : telnet'.sbTelopt = telnet.sbTelopt

theorem SameShape.refl (telnet : Telnet) : SameShape telnet telnet :=
  ⟨rfl, rfl, rfl, rfl, rfl, rfl, rfl⟩

theorem sameShape_alloc (telnet : Telnet) : SameShape telnet telnet.alloc :=
  ⟨rfl, rfl, rfl, rfl, rfl, rfl, rfl⟩

theorem sameShape_zmpTelnet (mem : ℕ → Bool) (telnet : Telnet) :
    SameShape telnet (zmpTelnet mem telnet).1 := by
  unfold zmpTelnet
  split
  · exact SameShape.refl telnet
  · split <;> exact sameShape_alloc telnet

theorem sameShape_ttypeTelnet (mem : ℕ → Bool) (telnet : Telnet) :
    SameShape telnet (ttypeTelnet mem telnet).1 := by
  unfold ttypeTelnet
  split
  · exact SameShape.refl telnet
  · split
    · exact SameShape.refl telnet
    · split
      · split <;> exact sameShape_alloc telnet
      · exact SameShape.refl telnet

theorem sameShape_environTelnet {mem : ℕ → Bool} {telnet : Telnet} {type : UInt8}
    {r : Telnet × List TelnetEvent × Bool} (h : environTelnet mem telnet type = some r) :
    SameShape telnet r.1 := by
  unfold environTelnet environArguments at h
  repeat' split at h
  all_goals first
    | (cases h; exact SameShape.refl telnet)
    | (cases h; exact sameShape_alloc telnet)
    | skip
  simp only [Option.bind_eq_bind, Option.bind_eq_some_iff] at h
  obtain ⟨⟨slots, c⟩, hentries, hr⟩ := h
  cases hr
  exact ⟨rfl, rfl, rfl, length_environEntries hentries, rfl, rfl, rfl⟩

theorem sameShape_msspTelnet {mem : ℕ → Bool} {telnet : Telnet}
    {r : Telnet × List TelnetEvent} (h : msspTelnet mem telnet = some r) :
    SameShape telnet r.1 := by
  unfold msspTelnet at h
  repeat' split at h
  all_goals first
    | (cases h; exact SameShape.refl telnet)
    | (cases h; exact sameShape_alloc telnet)
    | skip
  simp only [Option.bind_eq_bind, Option.bind_eq_some_iff] at h
  obtain ⟨outcome, hloop, hr⟩ := h
  cases hr
  have hlen := length_msspLoop hloop
  cases outcome <;> exact ⟨rfl, rfl, rfl, hlen, rfl, rfl, rfl⟩

theorem sameShape_subnegotiate (mem : ℕ → Bool) (telnet : Telnet) :
    SameShape telnet (telnet.subnegotiate mem).1 := by
  obtain ⟨r, hr⟩ := Option.isSome_iff_exists.1 (subnegotiateOption_isSome mem telnet)
  unfold Telnet.subnegotiate
  rw [hr]
  show SameShape telnet r.1
  unfold Telnet.subnegotiateOption at hr
  split at hr
  · cases hr; exact sameShape_zmpTelnet mem telnet
  · split at hr
    · cases hr; exact sameShape_ttypeTelnet mem telnet
    · split at hr
      · exact sameShape_environTelnet hr
      · split at hr
        · obtain ⟨r', hr', rfl⟩ := Option.map_eq_some_iff.1 hr
          exact sameShape_msspTelnet hr'
        · cases hr; exact SameShape.refl telnet

/-- The largest of the sizes. -/
def maxBufferSize : ℕ := 16384

theorem nextBufferSize_of_lt {size : ℕ} (hsize : size ∈ bufferSizes) (hlt : size < maxBufferSize) :
    ∃ size', nextBufferSize size = some size' ∧ size < size' ∧ size' ∈ bufferSizes := by
  simp only [bufferSizes, List.mem_cons, List.not_mem_nil, or_false] at hsize
  rcases hsize with rfl | rfl | rfl | rfl | rfl
  · exact ⟨512, rfl, by decide, by decide⟩
  · exact ⟨2048, rfl, by decide, by decide⟩
  · exact ⟨8192, rfl, by decide, by decide⟩
  · exact ⟨16384, rfl, by decide, by decide⟩
  · exact absurd hlt (lt_irrefl _)

theorem le_maxBufferSize {size : ℕ} (hsize : size ∈ bufferSizes) : size ≤ maxBufferSize := by
  simp only [bufferSizes, List.mem_cons, List.not_mem_nil, or_false] at hsize
  unfold maxBufferSize
  omega

/-- **The bytes of a subnegotiation lie within their buffer**, and its size is one of the table. -/
structure Telnet.Room (telnet : Telnet) : Prop where
  le : telnet.buffer.length ≤ telnet.bufferSize
  size : telnet.bufferSize ∈ bufferSizes

theorem Telnet.room_init (telopts : List Telopt) (proxy : Bool) : (telnetInit telopts proxy).Room :=
  ⟨le_refl 0, by simp [telnetInit, bufferSizes]⟩

/-- What does not touch the buffer and its size leaves room. -/
theorem Telnet.Room.congr {telnet telnet' : Telnet} (h : telnet.Room)
    (hlength : telnet'.buffer.length = telnet.buffer.length)
    (hsize : telnet'.bufferSize = telnet.bufferSize) : telnet'.Room :=
  ⟨by rw [hlength, hsize]; exact h.le, by rw [hsize]; exact h.size⟩

/-- What storing a byte comes to: it is stored within the allocation, or it is refused and the
buffer is left alone. -/
inductive Stores (mem : ℕ → Bool) (telnet : Telnet) (byte : UInt8) :
    Telnet × List TelnetEvent × Bool → Prop
  | stored (telnet' : Telnet) (hlt : telnet'.buffer.length < telnet'.bufferSize)
      (hbuffer : telnet'.buffer = telnet.buffer) (hsize : telnet'.bufferSize ∈ bufferSizes)
      (htelopts : telnet'.telopts = telnet.telopts) (hproxy : telnet'.proxy = telnet.proxy)
      (hq : telnet'.q = telnet.q) (hstate : telnet'.state = telnet.state)
      (hsb : telnet'.sbTelopt = telnet.sbTelopt) :
      Stores mem telnet byte (telnet'.pushByte byte, [], true)
  | full (hfull : telnet.buffer.length = maxBufferSize) :
      Stores mem telnet byte
        (telnet, [.warning "subnegotiation buffer size limit reached"], false)
  | noMemory (hmem : mem telnet.allocs = false) :
      Stores mem telnet byte (telnet.alloc, [.warning "realloc() failed"], false)

theorem Telnet.Room.bufferByte {telnet : Telnet} (h : telnet.Room) (mem : ℕ → Bool) (byte : UInt8) :
    Stores mem telnet byte (telnet.bufferByte mem byte) := by
  unfold Telnet.bufferByte
  split
  · next hlen =>
      rcases lt_or_eq_of_le (le_maxBufferSize h.size) with hlt | hmax
      · obtain ⟨size, hnext, hgrow, hsize⟩ := nextBufferSize_of_lt h.size hlt
        rw [hnext]
        dsimp only
        split
        · exact .stored { telnet.alloc with bufferSize := size } (hlen ▸ hgrow) rfl hsize rfl rfl rfl
            rfl rfl
        · next hmem => exact .noMemory (by simpa using hmem)
      · have hnone : nextBufferSize telnet.bufferSize = none := by
          rw [hmax]
          rfl
        rw [hnone]
        exact .full (hlen.trans hmax)
  · next hlen =>
      exact .stored telnet (lt_of_le_of_ne h.le hlen) rfl h.size rfl rfl rfl rfl rfl

theorem Telnet.Room.processSbByte {telnet : Telnet} (h : telnet.Room) (mem : ℕ → Bool)
    (byte : UInt8) : (telnet.processSbByte mem byte).1.Room := by
  have hstores := h.bufferByte mem byte
  unfold Telnet.processSbByte
  generalize telnet.bufferByte mem byte = r at hstores ⊢
  cases hstores with
  | stored telnet' hlt hbuffer hsize =>
      refine ⟨?_, hsize⟩
      show (telnet'.buffer ++ [byte]).length ≤ telnet'.bufferSize
      rw [List.length_append, List.length_singleton]
      exact hlt
  | full => exact h.congr rfl rfl
  | noMemory => exact h.congr rfl rfl

theorem Telnet.Room.processIac {telnet : Telnet} (h : telnet.Room) (byte : UInt8) :
    (telnet.processIac byte).1.Room := by
  unfold Telnet.processIac
  repeat' split
  all_goals exact h.congr rfl rfl

theorem Telnet.Room.subnegotiate {telnet : Telnet} (h : telnet.Room) (mem : ℕ → Bool) :
    (telnet.subnegotiate mem).1.Room :=
  h.congr (sameShape_subnegotiate mem telnet).length (sameShape_subnegotiate mem telnet).bufferSize

theorem Telnet.Room.processSbIac {telnet : Telnet} (h : telnet.Room) (mem : ℕ → Bool)
    (byte : UInt8) : (telnet.processSbIac mem byte).1.Room := by
  have hgoto : ∀ state, (telnet.goto state).Room := fun _ => h.congr rfl rfl
  unfold Telnet.processSbIac
  split
  · exact (hgoto .data).subnegotiate mem
  · split
    · exact h.processSbByte mem telnetIac
    · dsimp only
      split
      · exact (hgoto .iac).subnegotiate mem
      · exact ((hgoto .iac).subnegotiate mem).processIac byte

/-- **A byte leaves the bytes of the subnegotiation within their buffer.** -/
theorem Telnet.Room.feed {telnet : Telnet} (h : telnet.Room) (mem : ℕ → Bool) (byte : UInt8) :
    (telnet.feed mem byte).1.Room := by
  unfold Telnet.feed
  split
  · split
    · exact h.congr rfl rfl
    · exact h
  · unfold Telnet.command
    split
    · exact h
    · exact h.processIac byte
    · next cmd _ =>
        have hsame := sameReceiver_negotiate mem telnet cmd byte
        exact h.congr (congrArg List.length hsame.buffer) hsame.bufferSize
    · exact ⟨Nat.zero_le _, h.size⟩
    · split
      · exact h.congr rfl rfl
      · exact h.processSbByte mem byte
    · exact h.processSbIac mem byte

/-- **The bytes of a subnegotiation never lie outside their allocation**, which has at most 16384
bytes. -/
theorem telnetRecv_room (mem : ℕ → Bool) (telopts : List Telopt) (proxy : Bool)
    (pieces : List (List UInt8)) :
    let telnet := (Transducer.run (telnetRecv mem) (telnetInit telopts proxy) pieces).1
    telnet.buffer.length ≤ telnet.bufferSize ∧ telnet.bufferSize ≤ maxBufferSize := by
  have hrun := (telnetRecv_cuts mem).run_flatten (telnetInit telopts proxy) pieces
  have hroom := (Transducer.run_invariant (P := Telnet.Room) (Q := fun _ => True)
    (fun _ i hs => ⟨hs.feed mem i, fun _ _ => trivial⟩)
    (Telnet.room_init telopts proxy) pieces.flatten).1
  rw [← hrun.1] at hroom
  exact ⟨hroom.le, le_maxBufferSize hroom.size⟩

end Wsn
