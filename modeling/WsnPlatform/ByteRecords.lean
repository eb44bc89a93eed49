/-
**Numbers as bytes, and streams of records.**

A number is written as a fixed number of bytes, the low one first.  A stream of records is read one
record after the other: a parser takes a record off the front of what is left, until nothing is
left.

Nothing here is about a particular program or format: the records and the parser are parameters.

Main definitions:

* `ByteRecords.toBytes`, `ByteRecords.ofBytes` — a number in little-endian bytes;
* `ByteRecords.readAll` — reading records until the end.

Main results:

* `ByteRecords.ofBytes_toBytes` — a number is read back, modulo the size of its field;
* `ByteRecords.readAll_flatMap` — if every record is read back in front of anything, a stream of
  them is;
* `ByteRecords.sum_size_of_readAll` — the sizes of the records that are read add up to the length of
  the stream.
-/

import Mathlib

set_option relaxedAutoImplicit false
set_option autoImplicit false

namespace ByteRecords

universe u v w

/-! ### Numbers -/

/-- The `k` low bytes of a number, the lowest one first. -/
def toBytes : ℕ → ℕ → List UInt8
  | 0, _ => []
  | k + 1, n => UInt8.ofNat n :: toBytes k (n / 256)

/-- The number that some bytes stand for, the lowest one first. -/
def ofBytes : List UInt8 → ℕ
  | [] => 0
  | b :: bs => b.toNat + 256 * ofBytes bs

@[simp] theorem length_toBytes (k n : ℕ) : (toBytes k n).length = k := by
  induction k generalizing n with
  | zero => rfl
  | succ k ih => rw [toBytes, List.length_cons, ih]

/-- **A number is read back**, modulo the size of its field. -/
theorem ofBytes_toBytes (k n : ℕ) : ofBytes (toBytes k n) = n % 256 ^ k := by
  induction k generalizing n with
  | zero => exact (Nat.mod_one n).symm
  | succ k ih =>
      have hlow : (UInt8.ofNat n).toNat = n % 256 := UInt8.toNat_ofNat'
      rw [toBytes, ofBytes, ih, hlow, pow_succ', Nat.mod_mul]

/-- A number that fits into its field is read back. -/
theorem ofBytes_toBytes_of_lt {k n : ℕ} (h : n < 256 ^ k) : ofBytes (toBytes k n) = n := by
  rw [ofBytes_toBytes, Nat.mod_eq_of_lt h]

/-- The number in the `k` bytes from the offset `off` on. -/
def field (bs : List UInt8) (off k : ℕ) : ℕ := ofBytes ((bs.drop off).take k)

/-- A field is read back, behind anything and in front of anything. -/
theorem field_append {front : List UInt8} {off k n : ℕ} (hoff : front.length = off)
    (h : n < 256 ^ k) (rest : List UInt8) : field (front ++ (toBytes k n ++ rest)) off k = n := by
  rw [field, List.drop_left' hoff, List.take_left' (length_toBytes k n), ofBytes_toBytes_of_lt h]

/-! ### Records -/

section Records

variable {α : Type u} {β : Type v} {ρ : Type w}

/-- **Reading records until the end.**  The first argument bounds their number. -/
def readAll (readOne : List β → Option (ρ × List β)) : ℕ → List β → Option (List ρ)
  | _, [] => some []
  | 0, _ :: _ => none
  | fuel + 1, b :: bs =>
      (readOne (b :: bs)).bind fun r => (readAll readOne fuel r.2).map (r.1 :: ·)

variable {readOne : List β → Option (ρ × List β)}

@[simp] theorem readAll_nil (fuel : ℕ) : readAll readOne fuel [] = some [] := by
  cases fuel <;> rfl

/-- One record at the front. -/
theorem readAll_succ {bs rest : List β} {r : ρ} (hne : bs ≠ []) (h : readOne bs = some (r, rest))
    (fuel : ℕ) : readAll readOne (fuel + 1) bs = (readAll readOne fuel rest).map (r :: ·) := by
  obtain ⟨b, bs, rfl⟩ := List.exists_cons_of_ne_nil hne
  rw [readAll, h]
  rfl

/-- **A stream of records is read back**, if every record is, in front of anything. -/
theorem readAll_flatMap {encode : α → List β} {decode : α → ρ} {ws : List α}
    (hone : ∀ w ∈ ws, encode w ≠ [] ∧
      ∀ rest, readOne (encode w ++ rest) = some (decode w, rest)) {fuel : ℕ}
    (hfuel : ws.length ≤ fuel) :
    readAll readOne fuel (ws.flatMap encode) = some (ws.map decode) := by
  induction ws generalizing fuel with
  | nil => exact readAll_nil fuel
  | cons w ws ih =>
      obtain ⟨hne, hread⟩ := hone w (by simp)
      obtain ⟨fuel, rfl⟩ : ∃ k, fuel = k + 1 := ⟨fuel - 1, by simp at hfuel; omega⟩
      have hrest := ih (fun w' hw' => hone w' (List.mem_cons_of_mem w hw'))
        (Nat.le_of_succ_le_succ hfuel)
      have hcons : (w :: ws).flatMap encode ≠ [] := by
        rw [List.flatMap_cons]
        exact fun hnil => hne (List.append_eq_nil_iff.1 hnil).1
      rw [readAll_succ hcons (by rw [List.flatMap_cons, hread]), hrest]
      rfl

/-- **The sizes of the records add up** to the length of the stream, if each record is as long as
its size says. -/
theorem sum_size_of_readAll {size : ρ → ℕ}
    (hsize : ∀ bs r rest, readOne bs = some (r, rest) → bs.length = size r + rest.length)
    {fuel : ℕ} {bs : List β} {rs : List ρ} (h : readAll readOne fuel bs = some rs) :
    bs.length = (rs.map size).sum := by
  induction fuel generalizing bs rs with
  | zero =>
      cases bs with
      | nil =>
          rw [readAll_nil] at h
          cases h
          rfl
      | cons b bs => cases h
  | succ fuel ih =>
      cases bs with
      | nil =>
          rw [readAll_nil] at h
          cases h
          rfl
      | cons b bs =>
          rw [readAll, Option.bind_eq_some_iff] at h
          obtain ⟨⟨r, rest⟩, hread, h⟩ := h
          obtain ⟨rs', hrs', rfl⟩ := Option.map_eq_some_iff.1 h
          rw [List.map_cons, List.sum_cons, ← ih hrs', hsize _ _ _ hread]

end Records

end ByteRecords
