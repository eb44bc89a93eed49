/-
**Messages in subnegotiations.**

`ZMP`, `ENVIRON` and `MSSP` put a structure into the bytes of a subnegotiation: arguments, variables
with values, names with values.  Here the receiver of `TelnetReceiver` and the functions that take a
subnegotiation apart are put together: what was encoded and written arrives as it was, in whatever
pieces the network delivers it, as long as the buffer has room for it and no allocation fails.

`MSSP` has no escape for its markers, and `ENVIRON` refuses bytes that end with an escape, also
where that is an escaped escape.  The texts are handed on as C strings, so that each ends at its
first NUL.

Main definitions:

* `TelnetEvent.message`, `messagesOf` — the events with a structure.

Main results:

* `telnetRecv_zmp`, `telnetRecv_environ`, `telnetRecv_mssp` — **the messages arrive**.
-/

import WsnPlatform.TelnetWire

set_option relaxedAutoImplicit false
set_option autoImplicit false

namespace Wsn

/-- An event with a structure. -/
def TelnetEvent.message : TelnetEvent → Bool
  | .zmp _ => true
  | .ttype _ => true
  | .environ _ _ => true
  | .mssp _ => true
  | _ => false

/-- The messages among the events. -/
def messagesOf (events : List TelnetEvent) : List TelnetEvent := events.filter TelnetEvent.message

theorem messagesOf_atoms (events : List TelnetEvent) :
    messagesOf (events.flatMap TelnetEvent.atoms) = messagesOf events := by
  induction events with
  | nil => rfl
  | cons e events ih =>
      unfold messagesOf at ih ⊢
      rw [List.flatMap_cons, List.filter_append, ih, ← List.singleton_append (l := events),
        List.filter_append]
      congr 1
      cases e with
      | data buffer => simp [TelnetEvent.atoms, TelnetEvent.message]
      | _ => rfl

section

variable {mem : ℕ → Bool} {telnet : Telnet} {telopt : UInt8} {buffer : List UInt8}
  {pieces : List (List UInt8)}

/-- The messages of a subnegotiation, in whatever pieces it arrives, are those that are taken out of
its bytes. -/
theorem messagesOf_telnetRecv (hmem : ∀ n, mem n = true) (h : telnet.Ready)
    (hle : buffer.length ≤ maxBufferSize)
    (hpieces : pieces.flatten =
      [telnetIac, telnetSb, telopt] ++ escapeIac buffer ++ [telnetIac, telnetSe]) :
    ∃ telnet' : Telnet, telnet'.sbTelopt = telopt ∧ telnet'.buffer = buffer ∧
      messagesOf (Transducer.run (telnetRecv mem) telnet pieces).2 =
        messagesOf (telnet'.subnegotiate mem).2.1 := by
  obtain ⟨-, hevents⟩ := (telnetRecv_cuts mem).run_flatten telnet pieces
  obtain ⟨telnet', h', hrun⟩ := run_feed_subnegotiation_fits hmem h telopt hle
  refine ⟨telnet'.goto .data, h'.sbTelopt, h'.buffer, ?_⟩
  rw [← messagesOf_atoms, hevents, hpieces, hrun, messagesOf_atoms]

/-- The event of the subnegotiation itself is no message. -/
theorem messagesOf_subnegotiate {r : Telnet × List TelnetEvent × Bool}
    (h : telnet.subnegotiateOption mem = some r) :
    messagesOf (telnet.subnegotiate mem).2.1 = messagesOf r.2.1 := by
  unfold Telnet.subnegotiate
  rw [h]
  rfl

/-- **A `ZMP` command arrives with its arguments.** -/
theorem telnetRecv_zmp (hmem : ∀ n, mem n = true) (h : telnet.Ready) {argv : List CText}
    (hargv : argv ≠ []) (hnul : ∀ arg ∈ argv, 0 ∉ arg)
    (hle : (zmpBytes argv).length ≤ maxBufferSize)
    (hpieces : pieces.flatten = sentBytes (telnetSendZmp argv)) :
    messagesOf (Transducer.run (telnetRecv mem) telnet pieces).2 = [.zmp argv] := by
  rw [sentBytes_telnetSendZmp] at hpieces
  obtain ⟨telnet', hsb, hbuffer, hmessages⟩ := messagesOf_telnetRecv hmem h hle hpieces
  have hlast : telnet'.buffer.getLast? = some 0 := by
    obtain ⟨front, arg, rfl⟩ : ∃ front arg, argv = front ++ [arg] :=
      ⟨_, _, (List.dropLast_append_getLast hargv).symm⟩
    rw [hbuffer, zmpBytes, List.flatMap_append]
    simp
  have hzmp : zmpTelnet mem telnet' = (telnet'.alloc, [.zmp argv]) := by
    unfold zmpTelnet
    rw [if_neg (by simp [hlast]), if_neg (by simp [hmem]), hbuffer,
      zmpArguments_zmpBytes hnul (le_refl _)]
  have hoption : telnet'.subnegotiateOption mem = some (telnet'.alloc, [.zmp argv], false) := by
    unfold Telnet.subnegotiateOption
    rw [if_pos hsb, hzmp]
  rw [hmessages, messagesOf_subnegotiate hoption]
  rfl

/-- **The variables of `ENVIRON` arrive** as strings, unless their bytes end with an escape. -/
theorem telnetRecv_environ (hmem : ∀ n, mem n = true) (h : telnet.Ready)
    (htelopt : telopt = teloptEnviron ∨ telopt = teloptNewEnviron) {cmd : UInt8}
    (hcmd : cmd = environSend ∨ cmd = environIs ∨ cmd = environInfo) {vs : List EnvironValue}
    (hvs : vs ≠ []) (htype : ∀ v ∈ vs, startsVar v.type = true)
    (hle : (cmd :: vs.flatMap encodeEnvironVar).length ≤ maxBufferSize)
    (hpieces : pieces.flatten = [telnetIac, telnetSb, telopt] ++
      escapeIac (cmd :: vs.flatMap encodeEnvironVar) ++ [telnetIac, telnetSe]) :
    messagesOf (Transducer.run (telnetRecv mem) telnet pieces).2 =
      if (vs.flatMap encodeEnvironVar).getLast? = some environEsc then []
      else [.environ cmd (vs.map EnvironValue.cut)] := by
  obtain ⟨telnet', hsb, hbuffer, hmessages⟩ := messagesOf_telnetRecv hmem h hle hpieces
  obtain ⟨hcount, hvars⟩ := environVars_encode htype
  obtain ⟨v, vs', rfl⟩ := List.exists_cons_of_ne_nil hvs
  obtain ⟨args, hargs⟩ : ∃ args, (v :: vs').flatMap encodeEnvironVar = v.type :: args :=
    ⟨_, rfl⟩
  have hkind : startsVar v.type = true := htype v List.mem_cons_self
  have hnotZmp : telopt ≠ teloptZmp := by rcases htelopt with rfl | rfl <;> decide
  have hnotTtype : telopt ≠ teloptTtype := by rcases htelopt with rfl | rfl <;> decide
  have hoption : telnet'.subnegotiateOption mem = environTelnet mem telnet' telopt := by
    unfold Telnet.subnegotiateOption
    rw [hsb, if_neg hnotZmp, if_neg hnotTtype, if_pos htelopt]
  rw [hmessages]
  split
  · next hlast =>
      have hwarn : environTelnet mem telnet' telopt =
          some (telnet', [subnegWarning telopt "ends with ESC"], false) := by
        have hvalid : ¬ (cmd ≠ environSend ∧ cmd ≠ environIs ∧ cmd ≠ environInfo) := by tauto
        rw [hargs] at hlast hbuffer
        unfold environTelnet
        rw [hbuffer]
        dsimp only
        rw [if_neg hvalid, if_neg (by simp [hkind]), if_pos hlast]
      rw [hwarn] at hoption
      rw [messagesOf_subnegotiate hoption]
      rfl
  · next hlast =>
      rw [hargs] at hbuffer hcount hvars hlast
      obtain ⟨telnet'', hvalues⟩ := environTelnet_eq telopt hbuffer hcmd hkind hlast
        (hmem _)
      rw [hcount, hvars] at hvalues
      rw [hvalues] at hoption
      rw [messagesOf_subnegotiate hoption]
      rfl

/-- **The names and values of `MSSP` arrive** as strings, if the last text is not empty. -/
theorem telnetRecv_mssp (hmem : ∀ n, mem n = true) (h : telnet.Ready)
    {vs : List (List UInt8 × List (List UInt8))} (hvs : vs ≠ [])
    (hplain : ∀ v ∈ vs, MsspPlain v.1 ∧ ∀ text ∈ v.2, MsspPlain text)
    (hlast : EndsWithText (vs.flatMap encodeMssp))
    (hle : (vs.flatMap encodeMssp).length ≤ maxBufferSize)
    (hpieces : pieces.flatten = [telnetIac, telnetSb, teloptMssp] ++
      escapeIac (vs.flatMap encodeMssp) ++ [telnetIac, telnetSe]) :
    messagesOf (Transducer.run (telnetRecv mem) telnet pieces).2 =
      [.mssp ((msspPairs vs).map some)] := by
  obtain ⟨telnet', hsb, hbuffer, hmessages⟩ := messagesOf_telnetRecv hmem h hle hpieces
  obtain ⟨v, vs', rfl⟩ := List.exists_cons_of_ne_nil hvs
  obtain ⟨args, hargs⟩ : ∃ args, (v :: vs').flatMap encodeMssp = msspVar :: args := ⟨_, rfl⟩
  have hlast' : telnet'.buffer.getLast? ≠ some msspVal := by
    intro hval
    rw [hbuffer] at hval
    exact absurd (hlast msspVal hval) (by decide)
  have hread := msspRead_encode hplain hlast [] (telnet'.buffer.length + 1)
    (by rw [hbuffer]; exact Nat.le_succ _)
  rw [hargs] at hbuffer hread
  obtain ⟨⟨telnet'', hvalues⟩, -⟩ := msspTelnet_eq hbuffer (hmem _)
  rw [msspNext_cons] at hread
  rw [hread, if_neg hlast', List.append_nil] at hvalues
  have hoption : telnet'.subnegotiateOption mem =
      some (telnet'', [.mssp ((msspPairs (v :: vs')).map some)], false) := by
    unfold Telnet.subnegotiateOption
    rw [hsb, if_neg (by decide), if_neg (by decide), if_neg (by decide), if_pos rfl, hvalues]
    rfl
  rw [hmessages, messagesOf_subnegotiate hoption]
  rfl

end

theorem telnetRecv_zmp_two :
    messagesOf (Transducer.run (telnetRecv fun _ => true) (telnetInit [] false)
        [[255, 250, 93, 97], [98, 0, 99, 0, 255], [240]]).2 = [.zmp [[97, 98], [99]]] :=
  telnetRecv_zmp (fun _ => rfl) (Telnet.ready_init [] false) (by decide) (by decide) (by decide)
    (by decide)

theorem telnetRecv_environ_one :
    messagesOf (Transducer.run (telnetRecv fun _ => true) (telnetInit [] false)
        [[255, 250, 39, 0, 0, 97], [2, 1, 1, 98, 255, 240]]).2 = [.environ 0 [⟨0, [97, 1], [98]⟩]] :=
  telnetRecv_environ (fun _ => rfl) (Telnet.ready_init [] false) (Or.inr rfl)
    (show (0 : UInt8) = environSend ∨ _ from Or.inr (Or.inl rfl))
    (show [(⟨0, [97, 1], [98]⟩ : EnvironValue)] ≠ [] by decide) (by decide) (by decide) (by decide)

theorem telnetRecv_mssp_two :
    messagesOf (Transducer.run (telnetRecv fun _ => true) (telnetInit [] false)
        [[255, 250, 70, 1, 97], [2, 98, 2, 99, 255, 240]]).2 =
      [.mssp [some ([97], [98]), some ([97], [99])]] :=
  telnetRecv_mssp (fun _ => rfl) (Telnet.ready_init [] false)
    (show [(([97], [[98], [99]]) : List UInt8 × List (List UInt8))] ≠ [] by decide)
    (by simp [MsspPlain, endsMssp, msspVar, msspVal])
    (by simp [EndsWithText, encodeMssp, endsMssp, msspVar, msspVal]) (by decide) (by decide)

end Wsn
