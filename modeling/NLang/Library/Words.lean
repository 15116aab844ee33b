import Mathlib

/-!
# Little-endian words in byte strings

Fixed-width words are written least significant byte first and truncated to their width. Reading
at a position is total: a window that sticks out of the string is cut at its end. Whether a window
is inside is the separate predicate `Inside`.
-/

namespace NLang.Library.Words

abbrev Bytes := List UInt8

instance lawfulBytes : LawfulBEq Bytes := inferInstance

def putWord : Nat → Nat → Bytes
  | 0, _ => []
  | width+1, value => UInt8.ofNat value :: putWord width (value / 256)

def wordOf : Bytes → Nat
  | [] => 0
  | byte :: rest => byte.toNat + 256 * wordOf rest

def window (bytes : Bytes) (pos count : Nat) : Bytes := (bytes.drop pos).take count

def wordAt (width : Nat) (bytes : Bytes) (pos : Nat) : Nat := wordOf (window bytes pos width)

def Inside (bytes : Bytes) (pos count : Nat) : Prop := pos + count ≤ bytes.length

instance (bytes : Bytes) (pos count : Nat) : Decidable (Inside bytes pos count) :=
  inferInstanceAs (Decidable (pos + count ≤ bytes.length))

def overwrite (bytes : Bytes) (pos : Nat) (chunk : Bytes) : Bytes :=
  bytes.take pos ++ chunk ++ bytes.drop (pos + chunk.length)

@[simp] theorem putWord_length (width value : Nat) : (putWord width value).length = width := by
  induction width generalizing value with
  | zero => rfl
  | succ width ih => simp [putWord, ih]

theorem wordOf_putWord (width value : Nat) : wordOf (putWord width value) = value % 256 ^ width := by
  induction width generalizing value with
  | zero => simp [putWord, wordOf, Nat.mod_one]
  | succ width ih =>
    have low : (UInt8.ofNat value).toNat = value % 256 := by simp
    rw [putWord, wordOf, ih, low, show 256 ^ (width + 1) = 256 * 256 ^ width by ring, Nat.mod_mul]

theorem wordOf_lt (bytes : Bytes) : wordOf bytes < 256 ^ bytes.length := by
  induction bytes with
  | nil => simp [wordOf]
  | cons byte rest ih =>
    have small := byte.toNat_lt
    simp only [wordOf, List.length_cons]
    rw [show 256 ^ (rest.length + 1) = 256 * 256 ^ rest.length by ring]
    omega

theorem wordAt_lt (width : Nat) (bytes : Bytes) (pos : Nat) :
    wordAt width bytes pos < 256 ^ width := by
  apply (wordOf_lt _).trans_le
  apply Nat.pow_le_pow_right (by norm_num)
  simp [window]

def Follows (bytes : Bytes) (pos : Nat) (tail : Bytes) : Prop :=
  ∃ before, bytes = before ++ tail ∧ pos = before.length

namespace Follows
variable {bytes chunk tail : Bytes} {pos : Nat}

theorem start (bytes : Bytes) : Follows bytes 0 bytes := ⟨[], rfl, rfl⟩

theorem length_eq (follows : Follows bytes pos tail) : bytes.length = pos + tail.length := by
  obtain ⟨before, rfl, rfl⟩ := follows
  exact List.length_append

theorem drop_eq (follows : Follows bytes pos tail) : bytes.drop pos = tail := by
  obtain ⟨before, rfl, rfl⟩ := follows
  exact List.drop_left

theorem skip (follows : Follows bytes pos (chunk ++ tail)) (next : Nat)
    (at_next : next = pos + chunk.length) : Follows bytes next tail := by
  obtain ⟨before, rfl, rfl⟩ := follows
  exact ⟨before ++ chunk, by rw [List.append_assoc], by rw [List.length_append, at_next]⟩

theorem window_eq (follows : Follows bytes pos (chunk ++ tail)) :
    window bytes pos chunk.length = chunk := by
  rw [window, follows.drop_eq, List.take_left]

theorem inside (follows : Follows bytes pos (chunk ++ tail)) : Inside bytes pos chunk.length := by
  rw [Inside, follows.length_eq, List.length_append]
  omega

theorem wordAt_eq {width value : Nat} (follows : Follows bytes pos (putWord width value ++ tail))
    (small : value < 256 ^ width) : wordAt width bytes pos = value := by
  have cut := follows.window_eq
  rw [putWord_length] at cut
  rw [wordAt, cut, wordOf_putWord, Nat.mod_eq_of_lt small]

theorem getD_eq {byte : UInt8} (follows : Follows bytes pos (byte :: tail)) :
    bytes.getD pos 0 = byte := by
  obtain ⟨before, rfl, rfl⟩ := follows
  simp

end Follows

section Overwrite
variable {bytes chunk rest : Bytes} {pos : Nat}

theorem overwrite_length (inside : Inside bytes pos chunk.length) : (overwrite bytes pos chunk).length = bytes.length := by
  unfold Inside at inside
  simp only [overwrite, List.length_append, List.length_take, List.length_drop]
  omega

theorem overwrite_getElem?_of_outside {i : Nat} (inside : Inside bytes pos chunk.length)
    (outside : i < pos ∨ pos + chunk.length ≤ i) : (overwrite bytes pos chunk)[i]? = bytes[i]? := by
  unfold Inside at inside
  have before : (bytes.take pos).length = pos := by
    rw [List.length_take]
    omega
  unfold overwrite
  rcases outside with left | right
  · rw [List.append_assoc, List.getElem?_append_left (by omega), List.getElem?_take_of_lt left]
  · rw [List.getElem?_append_right (by rw [List.length_append]; omega), List.getElem?_drop, List.length_append, before]
    congr 1
    omega

theorem wordAt_overwrite {width : Nat} (value : Nat) (inside : Inside bytes pos width) :
    wordAt width (overwrite bytes pos (putWord width value)) pos = value % 256 ^ width := by
  unfold Inside at inside
  have before : (bytes.take pos).length = pos := by
    rw [List.length_take]
    omega
  have cut : window (overwrite bytes pos (putWord width value)) pos width = putWord width value := by
    unfold window overwrite
    rw [List.append_assoc, List.drop_append_of_le_length (by omega), List.drop_of_length_le (by omega),
      List.nil_append, List.take_append_of_le_length (by rw [putWord_length]), List.take_of_length_le]
    rw [putWord_length]
  rw [wordAt, cut, wordOf_putWord]

theorem overwrite_append_right (before : Bytes) :
    overwrite (before ++ bytes) (before.length + pos) chunk = before ++ overwrite bytes pos chunk := by
  simp only [overwrite, List.take_length_add_append, Nat.add_assoc, List.drop_length_add_append, List.append_assoc]

theorem overwrite_append_left (inside : Inside bytes pos chunk.length) :
    overwrite (bytes ++ rest) pos chunk = overwrite bytes pos chunk ++ rest := by
  unfold Inside at inside
  simp only [overwrite, List.append_assoc]
  rw [List.take_append_of_le_length (by omega), List.drop_append_of_le_length (by omega)]

theorem wordAt_append_right (width : Nat) (before : Bytes) :
    wordAt width (before ++ bytes) (before.length + pos) = wordAt width bytes pos := by
  simp only [wordAt, window, List.drop_length_add_append]

theorem wordAt_append_left {width : Nat} (inside : Inside bytes pos width) :
    wordAt width (bytes ++ rest) pos = wordAt width bytes pos := by
  unfold Inside at inside
  unfold wordAt window
  rw [List.drop_append_of_le_length (by omega), List.take_append_of_le_length (by rw [List.length_drop]; omega)]

theorem putWord_wordOf (bytes : Bytes) : putWord bytes.length (wordOf bytes) = bytes := by
  induction bytes with
  | nil => rfl
  | cons byte rest ih =>
    have low : UInt8.ofNat (byte.toNat + 256 * wordOf rest) = byte := by
      rw [← UInt8.toNat_inj]
      have small := byte.toNat_lt
      simp
    have high : (byte.toNat + 256 * wordOf rest) / 256 = wordOf rest := by
      have small := byte.toNat_lt
      omega
    rw [List.length_cons, wordOf, putWord, low, high, ih]

end Overwrite

theorem ofNat_eq_zero_iff (value : Nat) : UInt8.ofNat value = 0 ↔ value % 256 = 0 := by
  rw [← UInt8.toNat_inj]
  simp

end NLang.Library.Words
