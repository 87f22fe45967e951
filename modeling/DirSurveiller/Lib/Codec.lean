/-
  DirSurveiller.Lib.Codec — values of fixed width in memory.

  A `Codec` writes a value as a fixed number of bytes and reads it back, whatever follows; both laws
  are fields.  Codecs are built from little-endian naturals, by pairing and by renaming.  A codec is
  `Exact` when reading and writing bytes gives them back, too.
-/
import Mathlib.Algebra.Group.Nat.Defs
import Mathlib.Data.Nat.Basic
import Mathlib.Data.List.TakeDrop

/-- A fixed-width encoding that can be read back from the front of any longer block. -/
structure Codec (α : Type*) where
  width : Nat
  encode : α → List UInt8
  decode : List UInt8 → α
  length_encode : ∀ a, (encode a).length = width
  decode_encode : ∀ a rest, decode (encode a ++ rest) = a

namespace Codec

/-! ## §1. Little-endian naturals. -/

/-- The `w` bytes of `n`, least significant first. -/
def toBytes : Nat → Nat → List UInt8
  | 0, _ => []
  | w + 1, n => UInt8.ofNat n :: toBytes w (n / 256)

/-- The natural that the first `w` bytes stand for; missing bytes count as zero. -/
def ofBytes : Nat → List UInt8 → Nat
  | w + 1, b :: bs => b.toNat + 256 * ofBytes w bs
  | _, _ => 0

theorem length_toBytes (w n : Nat) : (toBytes w n).length = w := by
  induction w generalizing n with
  | zero => rfl
  | succ w ih => rw [toBytes, List.length_cons, ih]

theorem ofBytes_toBytes (w n : Nat) (rest : List UInt8) :
    ofBytes w (toBytes w n ++ rest) = n % 256 ^ w := by
  induction w generalizing n with
  | zero => simp [ofBytes, Nat.mod_one]
  | succ w ih =>
      have hbyte : (UInt8.ofNat n).toNat = n % 256 := UInt8.toNat_ofNat'
      rw [toBytes, List.cons_append, ofBytes, ih, hbyte, Nat.pow_succ' (n := w), Nat.mod_mul]

/-- A type that fits into `w` bytes. -/
def ofNat {α : Type*} (w : Nat) (toNat : α → Nat) (back : Nat → α)
    (hlt : ∀ a, toNat a < 256 ^ w) (hback : ∀ a, back (toNat a) = a) : Codec α where
  width := w
  encode a := toBytes w (toNat a)
  decode bs := back (ofBytes w bs)
  length_encode a := length_toBytes w (toNat a)
  decode_encode a rest := by rw [ofBytes_toBytes, Nat.mod_eq_of_lt (hlt a), hback]

/-! ## §2. Pairs. -/

/-- One value after the other. -/
def pair {α β : Type*} (c : Codec α) (d : Codec β) : Codec (α × β) where
  width := c.width + d.width
  encode p := c.encode p.1 ++ d.encode p.2
  decode bs := (c.decode bs, d.decode (bs.drop c.width))
  length_encode p := by rw [List.length_append, c.length_encode, d.length_encode]
  decode_encode p rest := by
    rw [List.append_assoc, c.decode_encode, ← c.length_encode p.1, List.drop_left,
      d.decode_encode]

/-- The same bytes under another name. -/
def map {α β : Type*} (c : Codec α) (f : α → β) (g : β → α) (hfg : ∀ b, f (g b) = b) : Codec β where
  width := c.width
  encode b := c.encode (g b)
  decode bs := f (c.decode bs)
  length_encode b := c.length_encode (g b)
  decode_encode b rest := by rw [c.decode_encode, hfg]

/-! ## §3. Encodings that use all bytes. -/

/-- Writing what was read gives back the bytes. -/
def Exact {α : Type*} (c : Codec α) : Prop :=
  ∀ bs, c.width ≤ bs.length → c.encode (c.decode bs) = bs.take c.width

theorem ofBytes_lt (w : Nat) (bs : List UInt8) : ofBytes w bs < 256 ^ w := by
  induction w generalizing bs with
  | zero => simp [ofBytes]
  | succ w ih =>
      cases bs with
      | nil =>
          rw [ofBytes]
          · exact Nat.pow_pos (by omega)
          · intro _ _ _ _ h
            cases h
      | cons b bs =>
          have hb := b.toNat_lt
          have hrest := ih bs
          rw [ofBytes, Nat.pow_succ]
          omega

theorem toBytes_ofBytes (w : Nat) (bs : List UInt8) (h : w ≤ bs.length) :
    toBytes w (ofBytes w bs) = bs.take w := by
  induction w generalizing bs with
  | zero => rfl
  | succ w ih =>
      cases bs with
      | nil => cases h
      | cons b bs =>
          have hb : b.toNat < 256 := b.toNat_lt
          have hlow : UInt8.ofNat (b.toNat + 256 * ofBytes w bs) = b := by
            rw [← UInt8.toNat_inj, UInt8.toNat_ofNat']
            omega
          have hhigh : (b.toNat + 256 * ofBytes w bs) / 256 = ofBytes w bs := by omega
          rw [ofBytes, toBytes, hlow, hhigh, ih bs (Nat.le_of_succ_le_succ h), List.take_succ_cons]

theorem ofNat_exact {α : Type*} {w : Nat} {toNat : α → Nat} {back : Nat → α}
    {hlt : ∀ a, toNat a < 256 ^ w} {hback : ∀ a, back (toNat a) = a}
    (h : ∀ n < 256 ^ w, toNat (back n) = n) : (ofNat w toNat back hlt hback).Exact := by
  intro bs hbs
  show toBytes w (toNat (back (ofBytes w bs))) = bs.take w
  rw [h _ (ofBytes_lt w bs), toBytes_ofBytes w bs hbs]

theorem Exact.pair {α β : Type*} {c : Codec α} {d : Codec β} (hc : c.Exact) (hd : d.Exact) :
    (c.pair d).Exact := by
  intro bs hbs
  replace hbs : c.width + d.width ≤ bs.length := hbs
  show c.encode (c.decode bs) ++ d.encode (d.decode (bs.drop c.width)) = bs.take (c.width + d.width)
  rw [hc bs (by omega), hd _ (by rw [List.length_drop]; omega), List.take_add]

theorem Exact.map {α β : Type*} {c : Codec α} (hc : c.Exact) {f : α → β} {g : β → α}
    {hfg : ∀ b, f (g b) = b} (hgf : ∀ a, g (f a) = a) : (c.map f g hfg).Exact := by
  intro bs hbs
  show c.encode (g (f (c.decode bs))) = bs.take c.width
  rw [hgf, hc bs hbs]

end Codec
