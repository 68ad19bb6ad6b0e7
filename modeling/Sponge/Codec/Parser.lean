import Mathlib.Tactic

/-!
# Reading and writing network byte order

A parser holds the bytes that are left and the result so far. Running out of
bytes is recorded once and every later read returns zero and consumes nothing.
-/

namespace Sponge

/-- What the library throws, with the text it throws. -/
inductive Exception where
  | runtimeError (what : String)
  | outOfRange (what : String)
  deriving DecidableEq

inductive ParseResult where
  | noError
  | badChecksum
  | packetTooShort
  | wrongIpVersion
  | headerTooShort
  | truncatedPacket
  | unsupported
  deriving DecidableEq, Repr

structure NetParser where
  buffer : List UInt8
  error : ParseResult := .noError

namespace NetParser

def checkSize (p : NetParser) (size : ℕ) : NetParser :=
  if size > p.buffer.length then { p with error := .packetTooShort } else p

/-- The next `len` bytes as a big-endian number. -/
def parseInt (p : NetParser) (len : ℕ) : ℕ × NetParser :=
  let p := p.checkSize len
  if p.error ≠ .noError then (0, p)
  else
    ((p.buffer.take len).foldl (fun ret byte ↦ ret * 2 ^ 8 + byte.toNat) 0,
      { p with buffer := p.buffer.drop len })

def u32 (p : NetParser) : UInt32 × NetParser :=
  ((UInt32.ofNat (p.parseInt 4).1), (p.parseInt 4).2)

def u16 (p : NetParser) : UInt16 × NetParser :=
  ((UInt16.ofNat (p.parseInt 2).1), (p.parseInt 2).2)

def u8 (p : NetParser) : UInt8 × NetParser :=
  ((UInt8.ofNat (p.parseInt 1).1), (p.parseInt 1).2)

/-- Discards `n` bytes. -/
def removePrefix (p : NetParser) (n : ℕ) : NetParser :=
  let p := p.checkSize n
  if p.error ≠ .noError then p else { p with buffer := p.buffer.drop n }

end NetParser

namespace NetUnparser

/-- The last `len` bytes of a number, the most significant one first. -/
def unparseInt (len val : ℕ) : List UInt8 :=
  (List.range len).map fun i ↦ UInt8.ofNat (val >>> ((len - i - 1) * 8))

def u32 (val : UInt32) : List UInt8 := unparseInt 4 val.toNat

def u16 (val : UInt16) : List UInt8 := unparseInt 2 val.toNat

def u8 (val : UInt8) : List UInt8 := unparseInt 1 val.toNat

theorem u8_eq (val : UInt8) : u8 val = [val] := by
  simp [u8, unparseInt]

theorem u16_eq (val : UInt16) :
    u16 val = [UInt8.ofNat (val.toNat / 2 ^ 8), UInt8.ofNat val.toNat] := by
  simp [u16, unparseInt, List.range_succ, Nat.shiftRight_eq_div_pow]

theorem u32_eq (val : UInt32) :
    u32 val = [UInt8.ofNat (val.toNat / 2 ^ 24), UInt8.ofNat (val.toNat / 2 ^ 16),
      UInt8.ofNat (val.toNat / 2 ^ 8), UInt8.ofNat val.toNat] := by
  simp [u32, unparseInt, List.range_succ, Nat.shiftRight_eq_div_pow]

end NetUnparser

namespace NetParser

/-- What a read of `n` bytes makes of a parser: it takes them off the front, or leaves an
error if there are not so many or there was one before. -/
structure Consumes (n : ℕ) (p p' : NetParser) : Prop where
  eq : p.error = .noError → n ≤ p.buffer.length → p' = ⟨p.buffer.drop n, .noError⟩
  error : ¬(p.error = .noError ∧ n ≤ p.buffer.length) → p'.error ≠ .noError

theorem Consumes.trans {m n : ℕ} {p p' p'' : NetParser} (h : Consumes m p p')
    (h' : Consumes n p' p'') : Consumes (m + n) p p'' := by
  constructor
  · intro herror hle
    have hp' := h.eq herror (by omega)
    subst hp'
    have hp'' := h'.eq rfl (by rw [List.length_drop]; omega)
    rw [hp'', List.drop_drop]
  · intro hnot
    apply h'.error
    rintro ⟨herror', hle'⟩
    by_cases hm : p.error = .noError ∧ m ≤ p.buffer.length
    · have hp' := h.eq hm.1 hm.2
      subst hp'
      rw [List.length_drop] at hle'
      exact hnot ⟨hm.1, by omega⟩
    · exact h.error hm herror'

theorem error_checkSize (p : NetParser) (n : ℕ) :
    (p.checkSize n).error ≠ .noError ↔ ¬(p.error = .noError ∧ n ≤ p.buffer.length) := by
  rw [checkSize]
  split_ifs with h
  · simp only [ne_eq, reduceCtorEq, not_false_eq_true, true_iff]
    omega
  · have hle : n ≤ p.buffer.length := not_lt.mp h
    simp [hle]

theorem checkSize_of_le {buffer : List UInt8} {n : ℕ} (h : n ≤ buffer.length) :
    checkSize ⟨buffer, .noError⟩ n = ⟨buffer, .noError⟩ :=
  if_neg (by simpa using h)

theorem parseInt_of_le {buffer : List UInt8} {n : ℕ} (h : n ≤ buffer.length) :
    parseInt ⟨buffer, .noError⟩ n =
      ((buffer.take n).foldl (fun ret byte ↦ ret * 2 ^ 8 + byte.toNat) 0,
        ⟨buffer.drop n, .noError⟩) := by
  simp [parseInt, checkSize_of_le h]

theorem removePrefix_of_le {buffer : List UInt8} {n : ℕ} (h : n ≤ buffer.length) :
    removePrefix ⟨buffer, .noError⟩ n = ⟨buffer.drop n, .noError⟩ := by
  simp [removePrefix, checkSize_of_le h]

theorem removePrefix_drop {buffer : List UInt8} {k n : ℕ} (hk : k ≤ n)
    (hn : n ≤ buffer.length) :
    removePrefix ⟨buffer.drop k, .noError⟩ (n - k) = ⟨buffer.drop n, .noError⟩ := by
  rw [removePrefix_of_le (by rw [List.length_drop]; omega), List.drop_drop,
    Nat.add_sub_cancel' hk]

theorem consumes_parseInt (p : NetParser) (n : ℕ) : Consumes n p (p.parseInt n).2 := by
  constructor
  · intro herror hle
    obtain ⟨buffer, error⟩ := p
    subst herror
    rw [parseInt_of_le hle]
  · intro hnot
    have herror := (error_checkSize p n).mpr hnot
    simp only [parseInt, if_pos herror]
    exact herror

theorem consumes_u8 (p : NetParser) : Consumes 1 p p.u8.2 := consumes_parseInt p 1

theorem consumes_u16 (p : NetParser) : Consumes 2 p p.u16.2 := consumes_parseInt p 2

theorem consumes_u32 (p : NetParser) : Consumes 4 p p.u32.2 := consumes_parseInt p 4

theorem consumes_removePrefix (p : NetParser) (n : ℕ) : Consumes n p (p.removePrefix n) := by
  constructor
  · intro herror hle
    obtain ⟨buffer, error⟩ := p
    subst herror
    exact removePrefix_of_le hle
  · intro hnot
    have herror := (error_checkSize p n).mpr hnot
    simp only [removePrefix, if_pos herror]
    exact herror

section cons

variable (a b c d : UInt8) (rest : List UInt8)

@[simp] theorem u8_cons : u8 ⟨a :: rest, .noError⟩ = (a, ⟨rest, .noError⟩) := by
  rw [u8, parseInt_of_le (by simp)]
  simp

@[simp] theorem u16_cons : u16 ⟨a :: b :: rest, .noError⟩ =
    (UInt16.ofNat (a.toNat * 2 ^ 8 + b.toNat), ⟨rest, .noError⟩) := by
  rw [u16, parseInt_of_le (by simp)]
  simp

@[simp] theorem u32_cons : u32 ⟨a :: b :: c :: d :: rest, .noError⟩ =
    (UInt32.ofNat (((a.toNat * 2 ^ 8 + b.toNat) * 2 ^ 8 + c.toNat) * 2 ^ 8 + d.toNat),
      ⟨rest, .noError⟩) := by
  rw [u32, parseInt_of_le (by simp)]
  simp

end cons

end NetParser

/-! What was written is read back, and what was read is written back. -/

namespace NetUnparser

@[simp] theorem length_u8 (val : UInt8) : (u8 val).length = 1 := by simp [u8_eq]

@[simp] theorem length_u16 (val : UInt16) : (u16 val).length = 2 := by simp [u16_eq]

@[simp] theorem length_u32 (val : UInt32) : (u32 val).length = 4 := by simp [u32_eq]

theorem ofNat_toNat_add_mul (a : UInt8) (n : ℕ) : UInt8.ofNat (n * 2 ^ 8 + a.toNat) = a := by
  have ha := a.toNat_lt
  apply UInt8.toNat.inj
  rw [UInt8.toNat_ofNat']
  omega

@[simp] theorem u16_ofNat (a b : UInt8) :
    u16 (UInt16.ofNat (a.toNat * 2 ^ 8 + b.toNat)) = [a, b] := by
  have ha := a.toNat_lt
  have hb := b.toNat_lt
  rw [u16_eq, UInt16.toNat_ofNat', Nat.mod_eq_of_lt (by omega), ofNat_toNat_add_mul,
    show (a.toNat * 2 ^ 8 + b.toNat) / 2 ^ 8 = a.toNat by omega, UInt8.ofNat_toNat]

@[simp] theorem u32_ofNat (a b c d : UInt8) :
    u32 (UInt32.ofNat (((a.toNat * 2 ^ 8 + b.toNat) * 2 ^ 8 + c.toNat) * 2 ^ 8 + d.toNat)) =
      [a, b, c, d] := by
  have ha := a.toNat_lt
  have hb := b.toNat_lt
  have hc := c.toNat_lt
  have hd := d.toNat_lt
  generalize hn : ((a.toNat * 2 ^ 8 + b.toNat) * 2 ^ 8 + c.toNat) * 2 ^ 8 + d.toNat = n
  rw [u32_eq, UInt32.toNat_ofNat', Nat.mod_eq_of_lt (by omega),
    show n / 2 ^ 24 = a.toNat by omega,
    show n / 2 ^ 16 = a.toNat * 2 ^ 8 + b.toNat by omega,
    show n / 2 ^ 8 = (a.toNat * 2 ^ 8 + b.toNat) * 2 ^ 8 + c.toNat by omega, ← hn,
    UInt8.ofNat_toNat, ofNat_toNat_add_mul, ofNat_toNat_add_mul, ofNat_toNat_add_mul]

/-! A buffer that is long enough starts with the bytes of some number. -/

variable {buffer : List UInt8}

theorem exists_u8_append (h : 1 ≤ buffer.length) : ∃ val rest, buffer = u8 val ++ rest := by
  match buffer, h with
  | a :: rest, _ => exact ⟨a, rest, by rw [u8_eq, List.singleton_append]⟩

theorem exists_u16_append (h : 2 ≤ buffer.length) : ∃ val rest, buffer = u16 val ++ rest := by
  match buffer, h with
  | a :: b :: rest, _ => exact ⟨_, rest, by rw [u16_ofNat a b]; rfl⟩

theorem exists_u32_append (h : 4 ≤ buffer.length) : ∃ val rest, buffer = u32 val ++ rest := by
  match buffer, h with
  | a :: b :: c :: d :: rest, _ => exact ⟨_, rest, by rw [u32_ofNat a b c d]; rfl⟩

end NetUnparser

namespace NetParser

variable (rest : List UInt8)

@[simp] theorem u8_append (val : UInt8) :
    u8 ⟨NetUnparser.u8 val ++ rest, .noError⟩ = (val, ⟨rest, .noError⟩) := by
  rw [NetUnparser.u8_eq]
  exact u8_cons val rest

@[simp] theorem u16_append (val : UInt16) :
    u16 ⟨NetUnparser.u16 val ++ rest, .noError⟩ = (val, ⟨rest, .noError⟩) := by
  have hval := val.toNat_lt
  rw [NetUnparser.u16_eq]
  simp only [List.cons_append, List.nil_append, u16_cons, UInt8.toNat_ofNat']
  congr 1
  apply UInt16.toNat.inj
  rw [UInt16.toNat_ofNat']
  omega

@[simp] theorem u32_append (val : UInt32) :
    u32 ⟨NetUnparser.u32 val ++ rest, .noError⟩ = (val, ⟨rest, .noError⟩) := by
  have hval := val.toNat_lt
  rw [NetUnparser.u32_eq]
  simp only [List.cons_append, List.nil_append, u32_cons, UInt8.toNat_ofNat']
  congr 1
  apply UInt32.toNat.inj
  rw [UInt32.toNat_ofNat']
  omega

end NetParser

end Sponge
