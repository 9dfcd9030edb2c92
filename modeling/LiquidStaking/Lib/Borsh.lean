import Mathlib.Data.List.Basic
import Mathlib.Tactic.Linarith

/-!
# Borsh

A byte format is a writer and a reader that agree: the reader takes back what
the writer wrote, whatever follows it, and accepts nothing else.  `Codec`
carries both laws, so every format that is put together from the ones below has
them.

* words are little endian and of a fixed width, a length is a word of four
  bytes;
* a string is its length in bytes and its UTF-8 bytes;
* a struct is its fields, one after the other;
* an enum is the number of the variant in one byte, and the fields of the
  variant.  A flag and an optional field are enums of two variants, and any
  other first byte is refused.

The writer is partial: a value that does not fit its word has no bytes.
-/

namespace Borsh

abbrev Bytes := List UInt8

/-- A writer and its reader.

The two laws are fields, so a format put together from others has them by
construction, and no proof about a particular format looks at bytes. -/
structure Codec (α : Type) where
  /-- The bytes of a value, if it has any. -/
  encode : α → Option Bytes
  /-- The value at the front of some bytes, and the rest. -/
  decode : Bytes → Option (α × Bytes)
  /-- What was written is read back, whatever follows it. -/
  decode_encode : ∀ {a : α} {bytes : Bytes}, encode a = some bytes →
    ∀ rest, decode (bytes ++ rest) = some (a, rest)
  /-- What is read was written: no other bytes stand for a value. -/
  encode_decode : ∀ {bytes : Bytes} {a : α} {rest : Bytes}, decode bytes = some (a, rest) →
    ∃ used, encode a = some used ∧ bytes = used ++ rest

namespace Codec

variable {α β : Type} (c : Codec α) (d : Codec β)

/-- **No encoding begins another**: of two values, the bytes of one are no
prefix of the bytes of the other. -/
theorem prefix_free {a b : α} {x y : Bytes} (ha : c.encode a = some x)
    (hb : c.encode b = some y) (hbegins : x <+: y) : a = b := by
  obtain ⟨rest, rfl⟩ := hbegins
  have hfirst := c.decode_encode ha rest
  have hsecond := c.decode_encode hb []
  rw [List.append_nil, hfirst] at hsecond
  exact (Prod.mk.inj (Option.some.inj hsecond)).1

/-- Different values have different bytes. -/
theorem encode_inj {a b : α} {bytes : Bytes} (ha : c.encode a = some bytes)
    (hb : c.encode b = some bytes) : a = b :=
  c.prefix_free ha hb List.prefix_rfl

/-! ## Structs

A struct is the pair of its fields, taken to its own type by `iso`; a field
whose values are restricted is `guarded`. -/

/-- No bytes. -/
def unit : Codec Unit where
  encode _ := some []
  decode bytes := some ((), bytes)
  decode_encode := by
    intro a bytes h rest
    obtain rfl := Option.some.inj h
    rfl
  encode_decode := by
    intro bytes a rest h
    obtain ⟨-, rfl⟩ := Prod.mk.inj (Option.some.inj h)
    exact ⟨[], rfl, rfl⟩

/-- One field after the other. -/
def pair : Codec (α × β) where
  encode v := (c.encode v.1).bind fun x => (d.encode v.2).map fun y => x ++ y
  decode bytes :=
    (c.decode bytes).bind fun v => (d.decode v.2).map fun w => ((v.1, w.1), w.2)
  decode_encode := by
    intro v bytes h rest
    simp only [Option.bind_eq_some_iff, Option.map_eq_some_iff] at h
    obtain ⟨x, hx, y, hy, rfl⟩ := h
    rw [List.append_assoc, c.decode_encode hx]
    dsimp only [Option.bind_some]
    rw [d.decode_encode hy]
    rfl
  encode_decode := by
    intro bytes v rest h
    simp only [Option.bind_eq_some_iff, Option.map_eq_some_iff, Prod.exists, Prod.mk.injEq] at h
    obtain ⟨a, middle, ha, b, last, hb, rfl, rfl⟩ := h
    obtain ⟨x, hx, rfl⟩ := c.encode_decode ha
    obtain ⟨y, hy, rfl⟩ := d.encode_decode hb
    exact ⟨x ++ y, by simp [hx, hy], (List.append_assoc _ _ _).symm⟩

/-- The same bytes for another type. -/
def iso (f : α → β) (g : β → α) (hfg : ∀ b, f (g b) = b) (hgf : ∀ a, g (f a) = a) :
    Codec β where
  encode b := c.encode (g b)
  decode bytes := (c.decode bytes).map fun v => (f v.1, v.2)
  decode_encode := by
    intro b bytes h rest
    rw [c.decode_encode h]
    exact congrArg some (Prod.ext (hfg b) rfl)
  encode_decode := by
    intro bytes b rest h
    simp only [Option.map_eq_some_iff, Prod.exists, Prod.mk.injEq] at h
    obtain ⟨a, last, ha, rfl, rfl⟩ := h
    rw [hgf]
    exact c.encode_decode ha

/-- Only the values that pass a check. -/
def guarded (p : α → Bool) : Codec α where
  encode a := if p a then c.encode a else none
  decode bytes := (c.decode bytes).filter fun v => p v.1
  decode_encode := by
    intro a bytes h rest
    obtain ⟨hp, h⟩ := Option.ite_none_right_eq_some.mp h
    rw [c.decode_encode h, Option.filter_some, if_pos hp]
  encode_decode := by
    intro bytes a rest h
    obtain ⟨h, hp⟩ := Option.filter_eq_some_iff.mp h
    rw [if_pos hp]
    exact c.encode_decode h

/-! ## Enums

Two variants at a time.  A first byte that is not the number of a variant is
refused. -/

/-- An enum of two variants. -/
def sum : Codec (α ⊕ β) where
  encode
    | .inl a => (c.encode a).map (0 :: ·)
    | .inr b => (d.encode b).map (1 :: ·)
  decode
    | 0 :: bytes => (c.decode bytes).map fun v => (.inl v.1, v.2)
    | 1 :: bytes => (d.decode bytes).map fun v => (.inr v.1, v.2)
    | _ => none
  decode_encode := by
    rintro (a | b) bytes h rest
    · obtain ⟨x, hx, rfl⟩ := Option.map_eq_some_iff.mp h
      simp [c.decode_encode hx]
    · obtain ⟨x, hx, rfl⟩ := Option.map_eq_some_iff.mp h
      simp [d.decode_encode hx]
  encode_decode := by
    intro bytes v rest h
    split at h
    · next bytes =>
        simp only [Option.map_eq_some_iff, Prod.exists, Prod.mk.injEq] at h
        obtain ⟨a, last, ha, rfl, rfl⟩ := h
        obtain ⟨x, hx, rfl⟩ := c.encode_decode ha
        exact ⟨0 :: x, by simp [hx], rfl⟩
    · next bytes =>
        simp only [Option.map_eq_some_iff, Prod.exists, Prod.mk.injEq] at h
        obtain ⟨b, last, hb, rfl, rfl⟩ := h
        obtain ⟨x, hx, rfl⟩ := d.encode_decode hb
        exact ⟨1 :: x, by simp [hx], rfl⟩
    · cases h

/-- A flag. -/
def bool : Codec Bool :=
  (sum unit unit).iso (fun | .inl _ => false | .inr _ => true)
    (fun | false => .inl () | true => .inr ()) (by rintro (_ | _) <;> rfl)
    (by rintro (_ | _) <;> rfl)

/-- An optional field. -/
def option : Codec (Option α) :=
  (sum unit c).iso (fun | .inl _ => none | .inr a => some a)
    (fun | none => .inl () | some a => .inr a) (by rintro (_ | _) <;> rfl)
    (by rintro (_ | _) <;> rfl)

/-! ## Words and strings

The lowest digit comes first, and a string is preceded by its length in bytes. -/

/-- The digits of a word, the lowest first. -/
def littleEndian : ℕ → ℕ → Bytes
  | 0, _ => []
  | width + 1, n => UInt8.ofNat n :: littleEndian width (n / 256)

/-- The word that a number of digits stand for. -/
def readWord : ℕ → Bytes → Option (ℕ × Bytes)
  | 0, bytes => some (0, bytes)
  | _ + 1, [] => none
  | width + 1, digit :: bytes =>
      (readWord width bytes).map fun v => (digit.toNat + 256 * v.1, v.2)

theorem readWord_littleEndian (width : ℕ) {n : ℕ} (h : n < 256 ^ width) (rest : Bytes) :
    readWord width (littleEndian width n ++ rest) = some (n, rest) := by
  induction width generalizing n with
  | zero =>
      obtain rfl : n = 0 := by simpa using h
      rfl
  | succ width ih =>
      have hhigh : n / 256 < 256 ^ width := by
        rw [Nat.div_lt_iff_lt_mul (by decide), ← pow_succ]
        exact h
      rw [littleEndian, List.cons_append, readWord, ih hhigh]
      have hdigit : (UInt8.ofNat n).toNat + 256 * (n / 256) = n := by
        rw [UInt8.toNat_ofNat']
        omega
      rw [Option.map_some, hdigit]

theorem littleEndian_of_readWord {width n : ℕ} {bytes rest : Bytes}
    (h : readWord width bytes = some (n, rest)) :
    n < 256 ^ width ∧ bytes = littleEndian width n ++ rest := by
  induction width generalizing n bytes with
  | zero =>
      obtain ⟨rfl, rfl⟩ := Prod.mk.inj (Option.some.inj h)
      exact ⟨by simp, rfl⟩
  | succ width ih =>
      cases bytes with
      | nil => cases h
      | cons digit bytes =>
          simp only [readWord, Option.map_eq_some_iff, Prod.exists, Prod.mk.injEq] at h
          obtain ⟨high, last, hread, rfl, rfl⟩ := h
          obtain ⟨hbound, rfl⟩ := ih hread
          have hlow := digit.toNat_lt
          have hdiv : (digit.toNat + 256 * high) / 256 = high := by omega
          have hdigit : UInt8.ofNat (digit.toNat + 256 * high) = digit := by
            apply UInt8.toNat_inj.mp
            rw [UInt8.toNat_ofNat']
            omega
          constructor
          · rw [pow_succ]
            omega
          · rw [littleEndian, hdigit, hdiv, List.cons_append]

/-- A word of `width` bytes. -/
def word (width : ℕ) : Codec ℕ where
  encode n := if n < 256 ^ width then some (littleEndian width n) else none
  decode := readWord width
  decode_encode := by
    intro n bytes h rest
    obtain ⟨hbound, h⟩ := Option.ite_none_right_eq_some.mp h
    obtain rfl := Option.some.inj h
    exact readWord_littleEndian width hbound rest
  encode_decode := by
    intro bytes n rest h
    obtain ⟨hbound, rfl⟩ := littleEndian_of_readWord h
    exact ⟨_, if_pos hbound, rfl⟩

/-- The UTF-8 bytes of a string. -/
def utf8 (s : String) : Bytes := s.toUTF8.data.toList

theorem length_utf8 (s : String) : (utf8 s).length = s.utf8ByteSize := by
  rfl

theorem fromUTF8_utf8 (s : String) : String.fromUTF8? (utf8 s).toByteArray = some s := by
  have hbytes : (utf8 s).toByteArray = s.toByteArray := by
    apply ByteArray.ext
    rw [List.data_toByteArray]
    rfl
  rw [String.fromUTF8?, hbytes, dif_pos s.isValidUTF8]
  rfl

theorem utf8_of_fromUTF8 {bytes : Bytes} {s : String}
    (h : String.fromUTF8? bytes.toByteArray = some s) : utf8 s = bytes := by
  unfold String.fromUTF8? at h
  split at h
  · obtain rfl := Option.some.inj h
    exact List.toList_data_toByteArray
  · cases h

/-- Bytes up to a given number, when there are so many. -/
def take (n : ℕ) (bytes : Bytes) : Option (Bytes × Bytes) :=
  if n ≤ bytes.length then some (bytes.take n, bytes.drop n) else none

/-- A string: its length in bytes as a word of four bytes, then its UTF-8 bytes.
Reading refuses bytes that are not UTF-8. -/
def string : Codec String where
  encode s := ((word 4).encode s.utf8ByteSize).map (· ++ utf8 s)
  decode bytes :=
    (readWord 4 bytes).bind fun len => (take len.1 len.2).bind fun chars =>
      (String.fromUTF8? chars.1.toByteArray).map fun s => (s, chars.2)
  decode_encode := by
    intro s bytes h rest
    obtain ⟨len, hlen, rfl⟩ := Option.map_eq_some_iff.mp h
    have hread : readWord 4 (len ++ utf8 s ++ rest) = some (s.utf8ByteSize, utf8 s ++ rest) := by
      rw [List.append_assoc]
      exact (word 4).decode_encode hlen _
    have htake : take s.utf8ByteSize (utf8 s ++ rest) = some (utf8 s, rest) := by
      rw [← length_utf8, take, if_pos (by simp), List.take_left, List.drop_left]
    rw [hread]
    dsimp only [Option.bind_some]
    rw [htake]
    dsimp only [Option.bind_some]
    rw [fromUTF8_utf8]
    rfl
  encode_decode := by
    intro bytes s rest h
    simp only [Option.bind_eq_some_iff, Option.map_eq_some_iff, Prod.exists, Prod.mk.injEq] at h
    obtain ⟨n, middle, hread, chars, last, htake, s', hchars, rfl, rfl⟩ := h
    obtain ⟨hle, htake⟩ := Option.ite_none_right_eq_some.mp htake
    obtain ⟨rfl, rfl⟩ := Prod.mk.inj (Option.some.inj htake)
    obtain ⟨hbound, rfl⟩ := littleEndian_of_readWord hread
    have hutf8 := utf8_of_fromUTF8 hchars
    have hlen : s'.utf8ByteSize = n := by
      rw [← length_utf8, hutf8, List.length_take, min_eq_left hle]
    refine ⟨littleEndian 4 n ++ middle.take n, ?_, ?_⟩
    · show ((if s'.utf8ByteSize < 256 ^ 4 then some (littleEndian 4 s'.utf8ByteSize)
        else none).map (· ++ utf8 s')) = _
      rw [hlen, if_pos hbound, hutf8]
      rfl
    · rw [List.append_assoc, List.take_append_drop]

/-! ## Which values have bytes

A value has bytes if its numbers fit their words and its strings are not too
long; the lemmas push this question down to the fields. -/

@[simp] theorem isSome_pair (v : α × β) :
    ((c.pair d).encode v).isSome = ((c.encode v.1).isSome && (d.encode v.2).isSome) := by
  dsimp only [pair]
  cases c.encode v.1 <;> cases d.encode v.2 <;> rfl

@[simp] theorem isSome_iso (f : α → β) (g : β → α) (hfg : ∀ b, f (g b) = b)
    (hgf : ∀ a, g (f a) = a) (b : β) :
    ((c.iso f g hfg hgf).encode b).isSome = (c.encode (g b)).isSome := rfl

@[simp] theorem isSome_guarded (p : α → Bool) (a : α) :
    ((c.guarded p).encode a).isSome = (p a && (c.encode a).isSome) := by
  dsimp only [guarded]
  cases p a <;> rfl

@[simp] theorem isSome_inl (a : α) :
    ((c.sum d).encode (.inl a)).isSome = (c.encode a).isSome := by
  simp [sum]

@[simp] theorem isSome_inr (b : β) :
    ((c.sum d).encode (.inr b)).isSome = (d.encode b).isSome := by
  simp [sum]

@[simp] theorem isSome_unit (a : Unit) : (unit.encode a).isSome = true := rfl

@[simp] theorem isSome_bool (b : Bool) : (bool.encode b).isSome = true := by
  cases b <;> rfl

@[simp] theorem isSome_option (o : Option α) :
    (c.option.encode o).isSome = o.all fun a => (c.encode a).isSome := by
  cases o with
  | none => rfl
  | some a => simp [option]

@[simp] theorem isSome_word (width n : ℕ) :
    ((word width).encode n).isSome = decide (n < 256 ^ width) := by
  unfold word
  by_cases h : n < 256 ^ width <;> simp [h]

@[simp] theorem isSome_string (s : String) :
    (string.encode s).isSome = decide (s.utf8ByteSize < 256 ^ 4) := by
  rw [← isSome_word]
  exact Option.isSome_map

end Codec

end Borsh
