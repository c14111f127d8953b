import Mathlib.Algebra.Ring.Int.Defs
import Mathlib.Algebra.Ring.Nat
import Mathlib.Data.List.Basic
import Mathlib.Tactic.Common

/-! Byte strings: fixed lengths, little-endian 32-bit words, slices, and writes at an offset. -/

namespace Lib

abbrev Bytes : Type := List UInt8

/-- A byte string of a fixed length. -/
abbrev FixedBytes (n : Nat) : Type := {bytes : Bytes // bytes.length = n}

@[simp] theorem fixedBytes_length {n : Nat} (bytes : FixedBytes n) : bytes.val.length = n := bytes.property

/-- Exactly `n` bytes: those of a string of that length, a longer one cut, a shorter one padded. -/
def fixedBytes (n : Nat) (bytes : Bytes) : FixedBytes n :=
  ⟨(bytes ++ List.replicate n 0).take n, by simp⟩

theorem fixedBytes_val {n : Nat} {bytes : Bytes} (h : bytes.length = n) :
    (fixedBytes n bytes).val = bytes := by
  subst h
  simp [fixedBytes]

/-- The bytes of a text. -/
def utf8 (s : String) : Bytes := s.toUTF8.data.toList

/-- The four bytes of the low 32 bits of a natural, least significant first. -/
def le32 (n : Nat) : Bytes :=
  [UInt8.ofNat n, UInt8.ofNat (n / 2 ^ 8), UInt8.ofNat (n / 2 ^ 16), UInt8.ofNat (n / 2 ^ 24)]

/-- The value of four little-endian bytes. -/
def ofLe32 : Bytes → Nat
  | [a, b, c, d] => a.toNat + 2 ^ 8 * b.toNat + 2 ^ 16 * c.toNat + 2 ^ 24 * d.toNat
  | _ => 0

@[simp] theorem le32_length (n : Nat) : (le32 n).length = 4 := rfl

theorem ofLe32_le32 (n : Nat) : ofLe32 (le32 n) = n % 2 ^ 32 := by
  simp only [le32, ofLe32, UInt8.toNat_ofNat']
  omega

theorem ofLe32_le32_of_lt {n : Nat} (h : n < 2 ^ 32) : ofLe32 (le32 n) = n := by
  rw [ofLe32_le32, Nat.mod_eq_of_lt h]

theorem le32_ofLe32 {bytes : Bytes} (h : bytes.length = 4) : le32 (ofLe32 bytes) = bytes := by
  obtain ⟨a, b, c, d, rfl⟩ : ∃ a b c d, bytes = [a, b, c, d] := by
    match bytes, h with
    | [a, b, c, d], _ => exact ⟨a, b, c, d, rfl⟩
  have hbyte : ∀ (x : UInt8) (n : Nat), n % 256 = x.toNat → UInt8.ofNat n = x := by
    intro x n hn
    apply UInt8.toNat.inj
    rw [UInt8.toNat_ofNat', hn]
  have ha := a.toNat_lt
  have hb := b.toNat_lt
  have hc := c.toNat_lt
  have hd := d.toNat_lt
  simp only [le32, ofLe32, List.cons.injEq, and_true]
  refine ⟨hbyte a _ ?_, hbyte b _ ?_, hbyte c _ ?_, hbyte d _ ?_⟩
  · omega
  · omega
  · omega
  · omega

/-- The bytes from `start` up to `stop`. -/
def slice (bytes : Bytes) (start stop : Nat) : Bytes := (bytes.drop start).take (stop - start)

theorem slice_length {bytes : Bytes} {start stop : Nat} (h : stop ≤ bytes.length) :
    (slice bytes start stop).length = stop - start := by
  simp only [slice, List.length_take, List.length_drop]
  omega

theorem slice_append_slice (bytes : Bytes) {start middle stop : Nat} (h₁ : start ≤ middle)
    (h₂ : middle ≤ stop) : slice bytes start middle ++ slice bytes middle stop = slice bytes start stop := by
  simp only [slice]
  rw [show stop - start = (middle - start) + (stop - middle) by omega, List.take_add, List.drop_drop,
    show start + (middle - start) = middle by omega]

theorem slice_min_length (bytes : Bytes) (start stop : Nat) :
    slice bytes start (min stop bytes.length) = slice bytes start stop := by
  simp only [slice]
  rw [List.take_eq_take_iff, List.length_drop]
  omega

/-- Slices of one size, one after the other. -/
theorem flatMap_slices (bytes : Bytes) (size count : Nat) :
    ((List.range count).flatMap fun i => slice bytes (i * size) (i * size + size)) = bytes.take (count * size) := by
  induction count with
  | zero => simp
  | succ count ih =>
      have hfront : bytes.take (count * size) = slice bytes 0 (count * size) := by simp [slice]
      rw [List.range_succ, List.flatMap_append, ih, List.flatMap_singleton, hfront,
        slice_append_slice bytes (Nat.zero_le _) (Nat.le_add_right _ _), ← Nat.succ_mul]
      simp [slice]

/-- The middle of a concatenation is the slice its outer lengths cut out. -/
theorem slice_append_middle (left middle right : Bytes) {start stop : Nat} (hstart : start = left.length)
    (hstop : stop = left.length + middle.length) : slice (left ++ middle ++ right) start stop = middle := by
  subst hstart hstop
  simp [slice, List.append_assoc]

/-- A list with the entries from an offset on replaced, and a gap past its end padded. -/
def overwrite {α : Type} (pad : α) (old : List α) (offset : Nat) (new : List α) : List α :=
  old.take offset ++ List.replicate (offset - old.length) pad ++ new ++ old.drop (offset + new.length)

section Overwrite

variable {α : Type} (pad : α) (old new : List α) (offset : Nat)

theorem overwrite_end : overwrite pad old old.length new = old ++ new := by
  simp [overwrite]

theorem overwrite_length :
    (overwrite pad old offset new).length = max old.length (offset + new.length) := by
  simp only [overwrite, List.length_append, List.length_take, List.length_replicate, List.length_drop]
  omega

variable {pad old new offset} {i : Nat}

/-- Before the offset the old entries stay. -/
theorem overwrite_before (hi : i < offset) (hold : i < old.length) :
    (overwrite pad old offset new)[i]? = old[i]? := by
  have hlen : i < (old.take offset).length := by rw [List.length_take]; omega
  rw [overwrite, List.append_assoc, List.append_assoc, List.getElem?_append_left hlen,
    List.getElem?_take_of_lt hi]

theorem overwrite_gap (hi : i < offset) (hold : old.length ≤ i) :
    (overwrite pad old offset new)[i]? = some pad := by
  have htake : (old.take offset).length ≤ i := by rw [List.length_take]; omega
  have hgap : i - (old.take offset).length < (List.replicate (offset - old.length) pad).length := by
    rw [List.length_replicate, List.length_take]
    omega
  rw [overwrite, List.append_assoc, List.append_assoc, List.getElem?_append_right htake,
    List.getElem?_append_left hgap, List.getElem?_replicate_of_lt (by simpa using hgap)]

theorem overwrite_written (hi : offset ≤ i) (hnew : i < offset + new.length) :
    (overwrite pad old offset new)[i]? = new[i - offset]? := by
  have hlen : (old.take offset ++ List.replicate (offset - old.length) pad).length = offset := by
    rw [List.length_append, List.length_take, List.length_replicate]
    omega
  rw [overwrite, List.append_assoc, List.getElem?_append_right (by rw [hlen]; exact hi), hlen,
    List.getElem?_append_left (by omega)]

/-- Past the new entries the old ones stay. -/
theorem overwrite_after (hi : offset + new.length ≤ i) :
    (overwrite pad old offset new)[i]? = old[i]? := by
  have hlen : (old.take offset ++ List.replicate (offset - old.length) pad ++ new).length =
      offset + new.length := by
    simp only [List.length_append, List.length_take, List.length_replicate]
    omega
  rw [overwrite, List.getElem?_append_right (by rw [hlen]; exact hi), hlen, List.getElem?_drop]
  congr 1
  omega

end Overwrite

/-- What a write of `data` at an offset leaves of a file: a gap past the end reads as zeros. -/
def writeAt (content : Bytes) (offset : Nat) (data : Bytes) : Bytes := overwrite 0 content offset data

end Lib
