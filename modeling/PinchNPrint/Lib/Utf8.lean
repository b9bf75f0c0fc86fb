/-
Texts as UTF-8 bytes.

A text is a list of characters, `encode` is its bytes, and `slice` is the part between two byte
offsets, where there is one: none when an offset lies inside of a character. A byte below 0x80 is
the whole of one character (`byte_mem_utf8EncodeChar_iff`), so a scan over the bytes for such a
byte stops at character boundaries only.
-/

import Mathlib.Data.List.Basic
import Mathlib.Tactic.Ring

namespace Utf8

/-- The bytes of a text. -/
def encode (text : List Char) : List UInt8 :=
  text.flatMap String.utf8EncodeChar

/-- The number of bytes of a text. -/
def size (text : List Char) : Nat :=
  (encode text).length

/-- The byte of an ASCII character: `b'c'`. -/
def byte (c : Char) : UInt8 :=
  UInt8.ofNat c.toNat

/-- The text behind so many bytes. -/
def dropBytes : List Char → Nat → Option (List Char)
  | text, 0 => some text
  | [], _ + 1 => none
  | c :: rest, n + 1 =>
    if (String.utf8EncodeChar c).length ≤ n + 1 then
      dropBytes rest (n + 1 - (String.utf8EncodeChar c).length)
    else none

/-- The text up to so many bytes. -/
def takeBytes : List Char → Nat → Option (List Char)
  | _, 0 => some []
  | [], _ + 1 => none
  | c :: rest, n + 1 =>
    if (String.utf8EncodeChar c).length ≤ n + 1 then
      (takeBytes rest (n + 1 - (String.utf8EncodeChar c).length)).map (c :: ·)
    else none

/-- `&text[start..stop]`: none when it would panic. -/
def slice (text : List Char) (start stop : Nat) : Option (List Char) :=
  if start ≤ stop then (dropBytes text start).bind fun rest => takeBytes rest (stop - start)
  else none

@[simp] theorem encode_nil : encode [] = [] := rfl

@[simp] theorem encode_cons (c : Char) (rest : List Char) :
    encode (c :: rest) = String.utf8EncodeChar c ++ encode rest := rfl

@[simp] theorem encode_append (text rest : List Char) :
    encode (text ++ rest) = encode text ++ encode rest :=
  List.flatMap_append

@[simp] theorem size_nil : size [] = 0 := rfl

@[simp] theorem size_cons (c : Char) (rest : List Char) :
    size (c :: rest) = (String.utf8EncodeChar c).length + size rest :=
  List.length_append

@[simp] theorem size_append (text rest : List Char) :
    size (text ++ rest) = size text + size rest := by
  rw [size, encode_append, List.length_append]
  rfl

theorem utf8EncodeChar_length_pos (c : Char) : 0 < (String.utf8EncodeChar c).length := by
  rw [String.length_utf8EncodeChar]
  exact c.utf8Size_pos

/-! ### Slices -/

theorem exists_size_cons (c : Char) (text : List Char) :
    ∃ n, size (c :: text) = n + 1 ∧ (String.utf8EncodeChar c).length ≤ n + 1 ∧
      n + 1 - (String.utf8EncodeChar c).length = size text := by
  have hpos := utf8EncodeChar_length_pos c
  have hsize := size_cons c text
  exact ⟨size (c :: text) - 1, by omega, by omega, by omega⟩

theorem dropBytes_append (text rest : List Char) :
    dropBytes (text ++ rest) (size text) = some rest := by
  induction text with
  | nil => cases rest <;> rfl
  | cons c text ih =>
    obtain ⟨n, hn, hle, hrest⟩ := exists_size_cons c text
    rw [List.cons_append, hn, dropBytes, if_pos hle, hrest]
    exact ih

theorem takeBytes_append (text rest : List Char) :
    takeBytes (text ++ rest) (size text) = some text := by
  induction text with
  | nil => cases rest <;> rfl
  | cons c text ih =>
    obtain ⟨n, hn, hle, hrest⟩ := exists_size_cons c text
    rw [List.cons_append, hn, takeBytes, if_pos hle, hrest, ih]
    rfl

/-- A slice between two character boundaries. -/
theorem slice_append {text run : List Char} (before after : List Char) (htext : text = before ++ run ++ after)
    {start stop : Nat} (hstart : start = size before) (hstop : stop = start + size run) :
    slice text start stop = some run := by
  subst htext hstart hstop
  rw [slice, if_pos (Nat.le_add_right _ _), List.append_assoc, dropBytes_append,
    Nat.add_sub_cancel_left]
  exact takeBytes_append run after

/-! ### ASCII bytes -/

theorem utf8EncodeChar_of_ascii {c : Char} (hc : c.toNat < 128) :
    String.utf8EncodeChar c = [byte c] := by
  have hle : c.val.toNat ≤ 0x7f := Nat.lt_succ_iff.mp hc
  rw [String.utf8EncodeChar, if_pos hle]
  rfl

/-- The bytes of a character of more than one byte lie from 0x80 on. -/
theorem byte_ne_of_large {a : Char} (ha : a.toNat < 128) {n : Nat} (hlow : 128 ≤ n)
    (hhigh : n < 256) : byte a ≠ UInt8.ofNat n := by
  intro heq
  have hval := congrArg UInt8.toNat heq
  rw [byte, UInt8.toNat_ofNat', UInt8.toNat_ofNat', Nat.mod_eq_of_lt (by omega),
    Nat.mod_eq_of_lt (by omega)] at hval
  omega

theorem byte_mem_utf8EncodeChar_iff {a c : Char} (ha : a.toNat < 128) :
    byte a ∈ String.utf8EncodeChar c ↔ c = a := by
  constructor
  · intro hmem
    by_cases hc : c.toNat < 128
    · rw [utf8EncodeChar_of_ascii hc, List.mem_singleton] at hmem
      have hval := congrArg UInt8.toNat hmem
      rw [byte, byte, UInt8.toNat_ofNat', UInt8.toNat_ofNat', Nat.mod_eq_of_lt (by omega),
        Nat.mod_eq_of_lt (by omega)] at hval
      exact (Char.ext (UInt32.toNat_inj.mp hval)).symm
    · exfalso
      have hlarge : ¬ c.val.toNat ≤ 0x7f := fun hle => hc (Nat.lt_succ_iff.mpr hle)
      have hlead : ∀ n, 128 ≤ n → n < 256 → byte a ≠ UInt8.ofNat n :=
        fun _ => byte_ne_of_large ha
      simp only [String.utf8EncodeChar, if_neg hlarge] at hmem
      split_ifs at hmem <;> simp only [List.mem_cons, List.not_mem_nil, or_false] at hmem
      · rcases hmem with h | h <;> exact hlead _ (by omega) (by omega) h
      · rcases hmem with h | h | h <;> exact hlead _ (by omega) (by omega) h
      · rcases hmem with h | h | h | h <;> exact hlead _ (by omega) (by omega) h
  · rintro rfl
    rw [utf8EncodeChar_of_ascii ha]
    exact List.mem_singleton_self _

end Utf8
