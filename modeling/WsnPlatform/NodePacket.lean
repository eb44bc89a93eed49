/-
**Node packets and their fragmentation into board frames.**

This module says what the FPGA sends, in its own terms: a well-formed node packet starts with the
bytes `0x7E 0x45`, ends with `0x7E` and has no `0x7E` strictly in between; it is cut into pieces of
ten bytes, and each piece travels in one frame with the port of its node, a time stamp and the XOR
of the other fifteen bytes.

Main definitions:

* `Wsn.NodePacket` — a well-formed packet of 11 to 256 bytes;
* `Wsn.frameOf` — the frame of one piece;
* `Wsn.TimedPacket`, `Wsn.TimedPacket.frames` — a packet with a time stamp for each piece, and its
  frames;
* `Wsn.Closing` — what is left of a packet after some of its pieces.

Main results:

* `Wsn.kind_frameOf`, `Wsn.payload_frameOf` and so on — every field of a frame is read back;
* `Wsn.TimedPacket.pieces_shape` — only the last piece of a packet closes it, and only the first one
  opens it;
* `Wsn.NodePacket.no_inner_delimiter` — a list with a `0x7E` strictly inside is no packet.
-/

import WsnPlatform.Reassembly

set_option relaxedAutoImplicit false
set_option autoImplicit false

namespace Wsn

open FixedBuffer

/-! ### Node packets -/

/-- **A well-formed node packet**, given by the bytes between `0x7E 0x45` and the last `0x7E`. -/
structure NodePacket where
  body : List UInt8
  body_min : 8 ≤ body.length
  body_max : body.length ≤ 253
  no_delimiter : nodeDelimiter ∉ body

namespace NodePacket

/-- The bytes of a node packet. -/
def bytes (P : NodePacket) : List UInt8 :=
  nodeDelimiter :: nodeDirectionFromNode :: (P.body ++ [nodeDelimiter])

theorem length_bytes (P : NodePacket) : P.bytes.length = P.body.length + 3 := by
  simp [bytes]

theorem length_bytes_gt (P : NodePacket) : 10 < P.bytes.length := by
  have := P.body_min
  rw [P.length_bytes]; omega

theorem length_bytes_le (P : NodePacket) : P.bytes.length ≤ 256 := by
  have := P.body_max
  rw [P.length_bytes]; omega

/-- The bytes strictly inside a packet are no delimiters. -/
theorem delimiter_not_mem_inner (P : NodePacket) : nodeDelimiter ∉ P.bytes.tail.dropLast := by
  have hinner : P.bytes.tail.dropLast = nodeDirectionFromNode :: P.body := by
    simp only [bytes, List.tail_cons]
    rw [← List.cons_append, List.dropLast_concat]
  rw [hinner, List.mem_cons, not_or]
  exact ⟨by decide, P.no_delimiter⟩

/-- **A list with a delimiter strictly inside is no node packet.** -/
theorem no_inner_delimiter (P : NodePacket) {a c : List UInt8} (ha : a ≠ []) (hc : c ≠ []) :
    a ++ nodeDelimiter :: c ≠ P.bytes := by
  intro h
  refine P.delimiter_not_mem_inner ?_
  obtain ⟨x, a, rfl⟩ := List.exists_cons_of_ne_nil ha
  obtain ⟨c, y, rfl⟩ : ∃ c' y, c = c' ++ [y] :=
    ⟨c.dropLast, c.getLast hc, (List.dropLast_append_getLast hc).symm⟩
  rw [← h, List.cons_append, List.tail_cons, ← List.cons_append, ← List.append_assoc,
    List.dropLast_concat]
  simp

/-- The bytes of packets are exactly the lists of the documented shape. -/
theorem exists_bytes_iff {l : List UInt8} :
    (∃ P : NodePacket, P.bytes = l) ↔
      11 ≤ l.length ∧ l.length ≤ 256 ∧
        l.take 2 = [nodeDelimiter, nodeDirectionFromNode] ∧ l.getLast? = some nodeDelimiter ∧
        nodeDelimiter ∉ l.tail.dropLast := by
  constructor
  · rintro ⟨P, rfl⟩
    have hlast : P.bytes.getLast? = some nodeDelimiter := by
      simp only [bytes, ← List.cons_append]
      exact List.getLast?_concat
    exact ⟨P.length_bytes_gt, P.length_bytes_le, rfl, hlast, P.delimiter_not_mem_inner⟩
  · rintro ⟨hmin, hmax, htake, hlast, hinner⟩
    obtain ⟨x, y, l, rfl⟩ : ∃ x y l', l = x :: y :: l' := by
      match l with
      | x :: y :: l' => exact ⟨x, y, l', rfl⟩
      | [_] => simp at hmin
      | [] => simp at hmin
    simp only [List.take_succ_cons, List.take_zero, List.cons.injEq, and_true] at htake
    obtain ⟨rfl, rfl⟩ := htake
    have hl : l ≠ [] := by rintro rfl; simp at hmin
    obtain ⟨b, z, rfl⟩ : ∃ b z, l = b ++ [z] :=
      ⟨l.dropLast, l.getLast hl, (List.dropLast_append_getLast hl).symm⟩
    rw [← List.cons_append, ← List.cons_append, List.getLast?_concat, Option.some_inj] at hlast
    subst hlast
    rw [List.tail_cons, ← List.cons_append, List.dropLast_concat, List.mem_cons, not_or] at hinner
    simp only [List.length_cons, List.length_append, List.length_nil] at hmin hmax
    exact ⟨⟨b, by omega, by omega, hinner.2⟩, rfl⟩

end NodePacket

/-! ### Frames -/

/-- The ten data bytes of a frame: the piece, padded with zeros. -/
def padded (piece : List UInt8) : List UInt8 := (piece ++ List.replicate 10 0).take 10

@[simp] theorem length_padded (piece : List UInt8) : (padded piece).length = 10 := by
  simp [padded]

theorem take_padded {piece : List UInt8} (h : piece.length ≤ 10) :
    (padded piece).take piece.length = piece := by
  rw [padded, List.take_take, Nat.min_eq_left h, List.take_left]

theorem getElem?_padded {piece : List UInt8} {i : ℕ} (hi : i < 10) (h : i < piece.length) :
    (padded piece)[i]? = piece[i]? := by
  rw [padded, List.getElem?_take_of_lt hi, List.getElem?_append_left h]

/-- The first fifteen bytes of the frame of a piece. -/
def frameBody (port : Fin 8) (stamp : List.Vector UInt8 4) (piece : List UInt8) : List UInt8 :=
  respBHeader (.ofNat port) (.ofNat piece.length) :: (stamp.toList ++ padded piece)

theorem length_frameBody (port : Fin 8) (stamp : List.Vector UInt8 4) (piece : List UInt8) :
    (frameBody port stamp piece).length = 15 := by
  simp [frameBody]

/-- **The frame of a piece**: header, time stamp, data and check byte. -/
def frameOf (port : Fin 8) (stamp : List.Vector UInt8 4) (piece : List UInt8) : Frame :=
  ⟨frameBody port stamp piece ++ [xorSum (frameBody port stamp piece)], by
    rw [List.length_append, length_frameBody]; rfl⟩

/-- The first frame of a packet from node 3. -/
def headFrame : Frame :=
  frameOf 2 (.replicate 4 9) (nodeDelimiter :: nodeDirectionFromNode :: List.replicate 8 5)

/-- A piece that closes a packet: it is short, or it ends with a delimiter. -/
def ClosingPiece (piece : List UInt8) : Prop :=
  piece.length ≠ 10 ∨ piece.getLast? = some nodeDelimiter

/-- A piece that opens a packet: it is full and starts with a delimiter. -/
def HeadPiece (piece : List UInt8) : Prop :=
  piece.length = 10 ∧ piece.head? = some nodeDelimiter

section FrameOf

variable (port : Fin 8) (stamp : List.Vector UInt8 4) {piece : List UInt8}

theorem header_frameOf : (frameOf port stamp piece).header =
    respBHeader (.ofNat port) (.ofNat piece.length) := rfl

theorem portId_frameOf (h : piece.length ≤ 10) :
    (frameOf port stamp piece).portId = .ofNat port := by
  rw [Frame.portId, header_frameOf]
  exact (respBHeader_fields port (by omega) piece.length (by omega)).1

theorem dataLen_frameOf (h : piece.length ≤ 10) :
    (frameOf port stamp piece).dataLen = .ofNat piece.length := by
  rw [Frame.dataLen, header_frameOf]
  exact (respBHeader_fields port (by omega) piece.length (by omega)).2

theorem toNat_dataLen_frameOf (h : piece.length ≤ 10) :
    (frameOf port stamp piece).dataLen.toNat = piece.length := by
  rw [dataLen_frameOf port stamp h, UInt8.toNat_ofNat']
  exact Nat.mod_eq_of_lt (by omega)

theorem timeStamp_frameOf : (frameOf port stamp piece).timeStamp = stamp := by
  refine List.Vector.toList_injective ?_
  have hstamp : stamp.toList.length = 4 := stamp.toList_length
  change ((frameBody port stamp piece ++ _).drop 1).take 4 = stamp.toList
  simp only [frameBody, List.cons_append, List.drop_succ_cons, List.drop_zero, List.append_assoc]
  exact List.take_left' hstamp

/-- The ten data bytes of a frame. -/
theorem slice_frameOf : slice (frameOf port stamp piece) 5 10 = padded piece := by
  have hstamp : stamp.toList.length = 4 := stamp.toList_length
  change ((frameBody port stamp piece ++ _).drop 5).take 10 = padded piece
  simp only [frameBody, List.cons_append, List.drop_succ_cons, List.append_assoc]
  rw [List.drop_left' hstamp, List.take_left' (length_padded piece)]

theorem payload_frameOf (h : piece.length ≤ 10) :
    (frameOf port stamp piece).payload = piece := by
  rw [Frame.payload, toNat_dataLen_frameOf port stamp h]
  have hslice : slice (frameOf port stamp piece) 5 piece.length =
      (slice (frameOf port stamp piece) 5 10).take piece.length := by
    rw [slice, slice, List.take_take, Nat.min_eq_left h]
  change slice (frameOf port stamp piece) 5 piece.length = piece
  rw [hslice, slice_frameOf, take_padded h]

/-- The byte of a frame at index `5 + i` is its data byte `i`. -/
theorem get_frameOf {i : ℕ} {x : UInt8} (hi : i < 10) (hx : piece[i]? = some x) :
    (frameOf port stamp piece).get ⟨5 + i, by omega⟩ = x := by
  have hlt : i < piece.length := (List.getElem?_eq_some_iff.1 hx).1
  have hslice : (slice (frameOf port stamp piece) 5 10)[i]? = some x := by
    rw [slice_frameOf, getElem?_padded hi hlt, hx]
  rw [slice, List.getElem?_take_of_lt hi, List.getElem?_drop] at hslice
  exact (List.getElem?_eq_some_iff.1 hslice).2

/-- A frame of at most ten bytes passes the parity check and is a data frame. -/
theorem kind_frameOf (h : piece.length ≤ 10) : (frameOf port stamp piece).kind = .data := by
  have heven : evenCheck (frameOf port stamp piece).toList = true := evenCheck_append_xor _
  have hlen := toNat_dataLen_frameOf port stamp h
  have hport := portId_frameOf port stamp h
  have hheader : (frameOf port stamp piece).header ≠ respBPacketTypeInvalid := by
    intro hbad
    rw [Frame.portId, hbad] at hport
    have : ∀ p : Fin 8, respBGetPortId respBPacketTypeInvalid ≠ .ofNat p := by decide
    exact this port hport
  have hgt : ¬ (frameOf port stamp piece).dataLen > respBDataLenMax := by
    rw [gt_iff_lt, UInt8.lt_iff_toNat_lt, hlen]
    exact not_lt.2 h
  have hcur : (frameOf port stamp piece).dataLen ≠ respBPacketTypeCurrent := by
    intro hbad
    rw [hbad] at hlen
    have : respBPacketTypeCurrent.toNat = 15 := rfl
    omega
  simp only [Frame.kind, heven, hheader, hgt, hcur, Bool.true_eq_false, false_and, or_self,
    if_false]

/-- A full piece that starts with `0x7E 0x45` makes a head frame. -/
theorem isHead_frameOf {l : List UInt8} (h : piece.length = 10)
    (hp : piece = nodeDelimiter :: nodeDirectionFromNode :: l) :
    (frameOf port stamp piece).IsHead := by
  refine ⟨?_, ?_, ?_⟩
  · have hx : piece[0]? = some nodeDelimiter := by rw [hp]; rfl
    exact get_frameOf port stamp (by decide) hx
  · have hx : piece[1]? = some nodeDirectionFromNode := by rw [hp]; rfl
    exact get_frameOf port stamp (by decide) hx
  · rw [dataLen_frameOf port stamp (by omega), h]
    rfl

/-- A head frame carries a full piece that starts with `0x7E`. -/
theorem isHead_frameOf_inv (h : piece.length ≤ 10) (hf : (frameOf port stamp piece).IsHead) :
    HeadPiece piece := by
  have hlen : piece.length = 10 := by
    have h₁ := toNat_dataLen_frameOf port stamp h
    rw [hf.2.2] at h₁
    exact h₁.symm
  have hx : piece[0]? = some piece[0] := List.getElem?_eq_getElem (by omega)
  have hget : (frameOf port stamp piece).delimiter = piece[0] :=
    get_frameOf port stamp (by decide) hx
  refine ⟨hlen, ?_⟩
  rw [List.head?_eq_getElem?, hx, ← hget, hf.1]

/-- A frame closes a packet when its piece is short or ends with a delimiter. -/
theorem closes_frameOf_iff (h : piece.length ≤ 10) :
    (frameOf port stamp piece).Closes ↔ ClosingPiece piece := by
  have hlen := toNat_dataLen_frameOf port stamp h
  have hne : (frameOf port stamp piece).dataLen ≠ respBDataLenMax ↔ piece.length ≠ 10 := by
    rw [ne_eq, ← UInt8.toNat_inj, hlen]
    rfl
  unfold Frame.Closes ClosingPiece
  rw [hne]
  by_cases hfull : piece.length = 10
  · have hx : piece[9]? = some piece[9] := List.getElem?_eq_getElem (by omega)
    have hlast : (frameOf port stamp piece).lastByteOfData = piece[9] :=
      get_frameOf port stamp (by decide) hx
    have hidx : piece.length - 1 = 9 := by omega
    rw [hlast, List.getLast?_eq_getElem?, hidx, hx, Option.some_inj]
  · simp [hfull]

end FrameOf

/-! ### The pieces of a packet -/

/-- **What is left of a packet**: a nonempty list whose only delimiter is its last byte. -/
def Closing (l : List UInt8) : Prop := ∃ b, l = b ++ [nodeDelimiter] ∧ nodeDelimiter ∉ b

theorem Closing.ne_nil {l : List UInt8} (h : Closing l) : l ≠ [] := by
  obtain ⟨b, rfl, -⟩ := h
  simp

theorem Closing.drop {l : List UInt8} (h : Closing l) (hl : 10 < l.length) :
    Closing (l.drop 10) := by
  obtain ⟨b, rfl, hb⟩ := h
  simp only [List.length_append, List.length_cons, List.length_nil] at hl
  refine ⟨b.drop 10, List.drop_append_of_le_length (by omega), ?_⟩
  exact fun hmem => hb (List.mem_of_mem_drop hmem)

theorem Closing.take_not_mem {l : List UInt8} (h : Closing l) (hl : 10 < l.length) :
    nodeDelimiter ∉ l.take 10 := by
  obtain ⟨b, rfl, hb⟩ := h
  simp only [List.length_append, List.length_cons, List.length_nil] at hl
  rw [List.take_append_of_le_length (by omega)]
  exact fun hmem => hb (List.mem_of_mem_take hmem)

/-- A full piece that is not the last one does not close. -/
theorem Closing.not_closingPiece_take {l : List UInt8} (h : Closing l) (hl : 10 < l.length) :
    ¬ ClosingPiece (l.take 10) := by
  rw [ClosingPiece, not_or, not_not, List.length_take]
  exact ⟨by omega, fun hbad => h.take_not_mem hl (List.mem_of_getLast? hbad)⟩

theorem Closing.getLast? {l : List UInt8} (h : Closing l) : l.getLast? = some nodeDelimiter := by
  obtain ⟨b, rfl, -⟩ := h
  exact List.getLast?_concat

theorem NodePacket.closing_drop (P : NodePacket) : Closing (P.bytes.drop 10) := by
  have hmin := P.body_min
  refine ⟨P.body.drop 8, ?_, fun hmem => P.no_delimiter (List.mem_of_mem_drop hmem)⟩
  change (P.body ++ [nodeDelimiter]).drop 8 = _
  exact List.drop_append_of_le_length (by omega)

/-- The head piece of a packet has no delimiter after its first byte, so it does not close. -/
theorem NodePacket.not_closingPiece_head (P : NodePacket) : ¬ ClosingPiece (P.bytes.take 10) := by
  have hmin := P.body_min
  have hlen := P.length_bytes_gt
  have htake : P.bytes.take 10 = nodeDelimiter :: nodeDirectionFromNode :: P.body.take 8 := by
    change _ :: _ :: (P.body ++ [nodeDelimiter]).take 8 = _
    rw [List.take_append_of_le_length (by omega)]
  rw [ClosingPiece, not_or, not_not, List.length_take]
  refine ⟨by omega, fun h => ?_⟩
  rw [htake, List.getLast?_cons_cons] at h
  rcases List.mem_cons.1 (List.mem_of_getLast? h) with hbad | hmem
  · exact absurd hbad (by decide)
  · exact P.no_delimiter (List.mem_of_mem_take hmem)

/-- One of the pieces of the rest of a packet closes it. -/
theorem Closing.exists_closingPiece {l : List UInt8} (h : Closing l) :
    ∃ q ∈ chunksOf 10 l, ClosingPiece q := by
  have hten : 0 < 10 := by decide
  refine chunksOf_induction (P := fun l => Closing l → ∃ q ∈ chunksOf 10 l, ClosingPiece q)
    hten ?_ ?_ l h.ne_nil h
  · intro l h0 hl h
    exact ⟨l, by rw [chunksOf_of_le h0 hl]; simp, Or.inr h.getLast?⟩
  · intro l hl ih h
    obtain ⟨q, hq, hclose⟩ := ih (h.drop hl)
    exact ⟨q, by rw [chunksOf_of_gt hten hl]; exact List.mem_cons_of_mem _ hq, hclose⟩

/-- No piece of the rest of a packet opens one. -/
theorem Closing.not_headPiece {l : List UInt8} (h : Closing l) :
    ∀ q ∈ chunksOf 10 l, ¬ HeadPiece q := by
  have hten : 0 < 10 := by decide
  refine chunksOf_induction (P := fun l => Closing l → ∀ q ∈ chunksOf 10 l, ¬ HeadPiece q)
    hten ?_ ?_ l h.ne_nil h
  · intro l h0 hl h q hq hhead
    rw [chunksOf_of_le h0 hl, List.mem_singleton] at hq
    subst hq
    obtain ⟨b, rfl, hb⟩ := h
    cases b with
    | nil => cases hhead.1
    | cons x b =>
        have hx : x = nodeDelimiter := Option.some_inj.1 hhead.2
        exact hb (hx ▸ List.mem_cons_self)
  · intro l hl ih h q hq hhead
    rw [chunksOf_of_gt hten hl, List.mem_cons] at hq
    rcases hq with rfl | hq
    · exact h.take_not_mem hl (List.mem_of_head? hhead.2)
    · exact ih (h.drop hl) q hq hhead

/-- **Before the last piece of a packet no piece closes it**: when pieces remain, the ones before
them are full and do not end with a delimiter, and the remaining ones are again the rest of a
packet. -/
theorem Closing.split : ∀ (ps₁ ps₂ : List (List UInt8)) (l : List UInt8), Closing l →
    ps₁ ++ ps₂ = chunksOf 10 l → ps₂ ≠ [] →
    ∃ l', Closing l' ∧ ps₂ = chunksOf 10 l' ∧ l = ps₁.flatten ++ l' ∧
      ∀ q ∈ ps₁, ¬ ClosingPiece q := by
  intro ps₁
  induction ps₁ with
  | nil => exact fun ps₂ l hl h _ => ⟨l, hl, h, rfl, by simp⟩
  | cons q ps₁ ih =>
      intro ps₂ l hl h hne
      rcases Nat.lt_or_ge 10 l.length with hlong | hshort
      · rw [chunksOf_of_gt (by decide) hlong, List.cons_append, List.cons.injEq] at h
        obtain ⟨rfl, h⟩ := h
        obtain ⟨l', hl', hps, hdrop, hfull⟩ := ih ps₂ (l.drop 10) (hl.drop hlong) h hne
        refine ⟨l', hl', hps, ?_, ?_⟩
        · rw [List.flatten_cons, List.append_assoc, ← hdrop, List.take_append_drop]
        · intro c hc
          rcases List.mem_cons.1 hc with rfl | hc
          · exact hl.not_closingPiece_take hlong
          · exact hfull c hc
      · rw [chunksOf_of_le hl.ne_nil hshort, List.cons_append, List.cons.injEq,
          List.append_eq_nil_iff] at h
        exact absurd h.2.2 hne

/-- A node packet with a time stamp for each of the pieces it is cut into. -/
structure TimedPacket where
  packet : NodePacket
  pieces : List (List.Vector UInt8 4 × List UInt8)
  pieces_eq : pieces.map Prod.snd = chunksOf 10 packet.bytes

namespace TimedPacket

def bytes (t : TimedPacket) : List UInt8 := t.packet.bytes

/-- The frames of a packet that the node at `port` sends. -/
def frames (port : Fin 8) (t : TimedPacket) : List Frame :=
  t.pieces.map fun p => frameOf port p.1 p.2

/-- The head piece and the pieces after it. -/
theorem pieces_cases (t : TimedPacket) :
    ∃ stamp rest, t.pieces = (stamp, t.bytes.take 10) :: rest ∧
      rest.map Prod.snd = chunksOf 10 (t.bytes.drop 10) := by
  have h := t.pieces_eq
  rw [chunksOf_of_gt (by decide) t.packet.length_bytes_gt] at h
  obtain ⟨⟨stamp, piece⟩, rest, hp, hpiece, hrest⟩ := List.map_eq_cons_iff.1 h
  exact ⟨stamp, rest, by rw [hp]; exact congrArg (fun x => (stamp, x) :: rest) hpiece, hrest⟩

/-- The time stamp of a packet: that of its head frame. -/
def stamp (t : TimedPacket) : List.Vector UInt8 4 :=
  match t.pieces with
  | [] => List.Vector.replicate 4 0
  | p :: _ => p.1

/-- No piece of a packet is longer than a frame can carry. -/
theorem length_piece_le (t : TimedPacket) : ∀ q ∈ t.pieces, q.2.length ≤ 10 := by
  intro q hq
  have hne : t.packet.bytes ≠ [] := List.cons_ne_nil _ _
  have hmem : q.2 ∈ chunksOf 10 t.packet.bytes := t.pieces_eq ▸ List.mem_map_of_mem hq
  exact length_le_of_mem_chunksOf (by decide) hne q.2 hmem

/-- Every frame of a packet is a data frame with the port of its node. -/
theorem frames_data (t : TimedPacket) (port : Fin 8) :
    ∀ f ∈ t.frames port, f.kind = .data ∧ f.portId = .ofNat port := by
  intro f hf
  obtain ⟨q, hq, rfl⟩ := List.mem_map.1 hf
  have hlen := t.length_piece_le q hq
  exact ⟨kind_frameOf port q.1 hlen, portId_frameOf port q.1 hlen⟩

/-- The frames of a packet carry its bytes. -/
theorem flatMap_payload_frames (t : TimedPacket) (port : Fin 8) :
    (t.frames port).flatMap Frame.payload = t.bytes := by
  have hne : t.packet.bytes ≠ [] := List.cons_ne_nil _ _
  have hpieces : (t.pieces.map Prod.snd).flatten = t.bytes := by
    rw [t.pieces_eq, flatten_chunksOf (by decide) hne]
    rfl
  rw [← hpieces, frames, List.flatMap_map, List.flatMap_def]
  refine congrArg List.flatten (List.map_congr_left fun q hq => ?_)
  exact payload_frameOf port q.1 (t.length_piece_le q hq)

/-- **The shape of the pieces of a packet**: of a head, full pieces and a last piece, only the last
one closes, and only the first one is a head. -/
theorem pieces_shape (t : TimedPacket) :
    ∃ head mid last, t.pieces = head :: (mid ++ [last]) ∧ head.2 = t.bytes.take 10 ∧
      (∀ q ∈ head :: mid, ¬ ClosingPiece q.2) ∧ ClosingPiece last.2 ∧
      ∀ q ∈ mid ++ [last], ¬ HeadPiece q.2 := by
  obtain ⟨stamp, rest, hp, hrest⟩ := t.pieces_cases
  have hne : rest ≠ [] := by
    rintro rfl
    exact chunksOf_ne_nil (by decide) t.packet.closing_drop.ne_nil hrest.symm
  obtain ⟨mid, q, rfl⟩ : ∃ mid q, rest = mid ++ [q] :=
    ⟨rest.dropLast, rest.getLast hne, (List.dropLast_append_getLast hne).symm⟩
  have hhead : ∀ c ∈ mid ++ [q], ¬ HeadPiece c.2 := by
    intro c hc
    exact t.packet.closing_drop.not_headPiece c.2 (hrest ▸ List.mem_map_of_mem hc)
  rw [List.map_append] at hrest
  obtain ⟨l', hl', hlast, -, hopen⟩ := Closing.split _ _ _ t.packet.closing_drop hrest (by simp)
  refine ⟨(stamp, t.bytes.take 10), mid, q, hp, rfl, ?_, ?_, hhead⟩
  · intro c hc
    rcases List.mem_cons.1 hc with rfl | hc
    · exact t.packet.not_closingPiece_head
    · exact hopen c.2 (List.mem_map_of_mem hc)
  -- the last piece alone is what is left, so it is the one that closes
  · obtain ⟨c, hc, hclose⟩ := hl'.exists_closingPiece
    rw [← hlast, List.map_singleton, List.mem_singleton] at hc
    rw [← hc]
    exact hclose

/-- The frames of a packet have the shape of its pieces. -/
theorem frames_shape (t : TimedPacket) (port : Fin 8) :
    ∃ head mid last, t.frames port = head :: (mid ++ [last]) ∧ head.IsHead ∧
      head.payload.head? = some nodeDelimiter ∧ (∀ f ∈ head :: mid, ¬ f.Closes) ∧ last.Closes := by
  obtain ⟨head, mid, last, hp, hhead, hopen, hclose, -⟩ := t.pieces_shape
  have hlen := t.length_piece_le
  rw [hp] at hlen
  have hlong := t.packet.length_bytes_gt
  have hten : head.2.length = 10 := by
    rw [hhead, List.length_take]
    exact Nat.min_eq_left hlong.le
  refine ⟨frameOf port head.1 head.2, mid.map fun c => frameOf port c.1 c.2,
    frameOf port last.1 last.2, ?_, isHead_frameOf port head.1 hten hhead, ?_, ?_, ?_⟩
  · rw [frames, hp, List.map_cons, List.map_append]
    rfl
  · rw [payload_frameOf port head.1 hten.le, hhead]
    rfl
  · intro f hf
    obtain ⟨c, hc, rfl⟩ : ∃ c ∈ head :: mid, frameOf port c.1 c.2 = f :=
      List.mem_map.1 (by rwa [List.map_cons])
    have hc' : c ∈ head :: (mid ++ [last]) := by
      rw [← List.cons_append]
      exact List.mem_append_left _ hc
    exact mt (closes_frameOf_iff port c.1 (hlen c hc')).1 (hopen c hc)
  · exact (closes_frameOf_iff port last.1 (hlen last (by simp))).2 hclose

end TimedPacket

def firstPort : Fin 8 := 0

def secondPort : Fin 8 := 1

theorem delimiter_ne_one : nodeDelimiter ≠ 1 := by decide

theorem delimiter_ne_two : nodeDelimiter ≠ 2 := by decide

/-- The shortest packets: eight copies of one byte. -/
def shortPacket (x : UInt8) (h : nodeDelimiter ≠ x) : TimedPacket where
  packet :=
    { body := List.replicate 8 x
      body_min := by simp
      body_max := by simp
      no_delimiter := fun hmem => h (List.eq_of_mem_replicate hmem) }
  pieces :=
    [(List.Vector.replicate 4 0, 0x7E :: 0x45 :: List.replicate 8 x),
      (List.Vector.replicate 4 0, [0x7E])]
  pieces_eq := rfl

end Wsn
