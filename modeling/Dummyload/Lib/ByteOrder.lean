import Mathlib.Data.List.GetD
import Mathlib.Data.Nat.Digits.Lemmas
import Mathlib.Tactic.Positivity

/-!
# Dummyload.Lib.ByteOrder

Words of a fixed number of bytes in memory, in either **byte order**, and the
conversions between a host and big-endian data (`endian.h`). A word of `w` bytes is a
`BitVec (8 * w)`; its bytes are its digits to the base 256.

`bigEndian` is what such a word looks like on the wire, from the signed number alone.
-/

namespace Lib.ByteOrder

/-- The order in which a machine stores the bytes of a word. -/
inductive Order
  /-- Least significant byte first. -/
  | little
  /-- Most significant byte first. -/
  | big
  deriving DecidableEq

namespace Order

/-- Between the order and the little-endian one. -/
def arrange : Order → List UInt8 → List UInt8
  | .little, bs => bs
  | .big, bs => bs.reverse

/-- The word in memory. -/
def bytes (o : Order) (w : ℕ) (x : BitVec (8 * w)) : List UInt8 :=
  o.arrange ((Nat.digitsAppend 256 w x.toNat).map UInt8.ofNat)

/-- The word that these bytes are. -/
def word (o : Order) (w : ℕ) (bs : List UInt8) : BitVec (8 * w) :=
  BitVec.ofNat (8 * w) (Nat.ofDigits 256 ((o.arrange bs).map UInt8.toNat))

end Order

/-- The word with its bytes reversed. -/
def swap (w : ℕ) (x : BitVec (8 * w)) : BitVec (8 * w) :=
  Order.little.word w (Order.little.bytes w x).reverse

/-- `htobe16`, `htobe32`, `htobe64`. -/
def htobe : Order → (w : ℕ) → BitVec (8 * w) → BitVec (8 * w)
  | .little, w, x => swap w x
  | .big, _, x => x

/-- `be16toh`, `be32toh`, `be64toh`. -/
def betoh : Order → (w : ℕ) → BitVec (8 * w) → BitVec (8 * w)
  | .little, w, x => swap w x
  | .big, _, x => x

/-- The number in two's complement, as `w` bytes with the most significant one first. -/
def bigEndian (w : ℕ) (v : ℤ) : List UInt8 :=
  ((List.range w).map fun i => UInt8.ofNat (v / 256 ^ i % 256).toNat).reverse

/-! ### Words and their bytes -/

variable {o : Order} {w : ℕ}

@[simp] theorem Order.arrange_arrange (bs : List UInt8) : o.arrange (o.arrange bs) = bs := by
  cases o with
  | little => rfl
  | big => exact List.reverse_reverse bs

@[simp] theorem Order.length_arrange (bs : List UInt8) : (o.arrange bs).length = bs.length := by
  cases o with
  | little => rfl
  | big => exact List.length_reverse

theorem toNat_lt_pow (x : BitVec (8 * w)) : x.toNat < 256 ^ w := by
  have h := x.isLt
  rwa [pow_mul] at h

/-- Digits below 256 are bytes. -/
theorem map_toNat_ofNat {ds : List ℕ} (h : ∀ d ∈ ds, d < 256) :
    (ds.map UInt8.ofNat).map UInt8.toNat = ds := by
  have hd : ∀ d ∈ ds, (UInt8.toNat ∘ UInt8.ofNat) d = id d := fun d hd =>
    UInt8.toNat_ofNat_of_lt (h d hd)
  rw [List.map_map, List.map_congr_left hd, List.map_id]

theorem map_ofNat_toNat (bs : List UInt8) : (bs.map UInt8.toNat).map UInt8.ofNat = bs := by
  have hb : ∀ b ∈ bs, (UInt8.ofNat ∘ UInt8.toNat) b = id b := fun b _ => UInt8.ofNat_toNat
  rw [List.map_map, List.map_congr_left hb, List.map_id]

@[simp] theorem Order.length_bytes (x : BitVec (8 * w)) : (o.bytes w x).length = w := by
  rw [Order.bytes, Order.length_arrange, List.length_map,
    Nat.length_digitsAppend (by norm_num) w (toNat_lt_pow x)]

/-- A word is what its bytes say. -/
theorem Order.word_bytes (x : BitVec (8 * w)) : o.word w (o.bytes w x) = x := by
  have hdigits : ∀ d ∈ Nat.digitsAppend 256 w x.toNat, d < 256 := fun d hd =>
    Nat.lt_of_mem_digitsAppend (by norm_num) w d hd
  have hinv := (Nat.setInvOn_digitsAppend_ofDigits (b := 256) (by norm_num) w).2 (toNat_lt_pow x)
  rw [Order.word, Order.bytes, Order.arrange_arrange, map_toNat_ofNat hdigits, hinv,
    BitVec.ofNat_toNat, BitVec.setWidth_eq]

/-- Any bytes are those of a word. -/
theorem Order.bytes_word {bs : List UInt8} (h : bs.length = w) : o.bytes w (o.word w bs) = bs := by
  have hlt : ∀ d ∈ (o.arrange bs).map UInt8.toNat, d < 256 := by
    intro d hd
    obtain ⟨b, -, rfl⟩ := List.mem_map.mp hd
    exact b.toNat_lt
  have hlength : ((o.arrange bs).map UInt8.toNat).length = w := by
    rw [List.length_map, Order.length_arrange, h]
  have hbound : Nat.ofDigits 256 ((o.arrange bs).map UInt8.toNat) < 2 ^ (8 * w) := by
    have hpow := Nat.ofDigits_lt_base_pow_length (by norm_num) hlt
    rwa [hlength, show (256 : ℕ) = 2 ^ 8 by norm_num, ← pow_mul] at hpow
  have hinv := (Nat.setInvOn_digitsAppend_ofDigits (b := 256) (by norm_num) w).1 ⟨hlength, hlt⟩
  rw [Order.bytes, Order.word, BitVec.toNat_ofNat, Nat.mod_eq_of_lt hbound, hinv, map_ofNat_toNat,
    Order.arrange_arrange]

/-! ### Between host and wire -/

/-- Stored by the host, a converted word is big-endian. -/
theorem bytes_htobe (host : Order) (x : BitVec (8 * w)) :
    host.bytes w (htobe host w x) = Order.big.bytes w x := by
  cases host with
  | little => exact Order.bytes_word (by rw [List.length_reverse, Order.length_bytes])
  | big => rfl

/-- Loaded by the host and converted, big-endian bytes are their word. -/
theorem betoh_word (host : Order) {bs : List UInt8} (h : bs.length = w) :
    betoh host w (host.word w bs) = Order.big.word w bs := by
  cases host with
  | little =>
      rw [betoh, swap, Order.bytes_word h]
      rfl
  | big => rfl

/-! ### On the wire -/

@[simp] theorem length_bigEndian (w : ℕ) (v : ℤ) : (bigEndian w v).length = w := by
  simp [bigEndian]

theorem digitsAppend_eq {n : ℕ} (h : n < 256 ^ w) :
    Nat.digitsAppend 256 w n = (List.range w).map fun i => n / 256 ^ i % 256 := by
  have hlength := Nat.length_digitsAppend (b := 256) (by norm_num) w h
  refine List.ext_getElem (by rw [hlength, List.length_map, List.length_range]) ?_
  intro i hi _
  rw [List.getElem_map, List.getElem_range, ← Nat.getD_digits n i (by norm_num)]
  simp only [Nat.digitsAppend, List.getElem_append]
  split
  · rename_i hlt
    exact (List.getD_eq_getElem _ 0 hlt).symm
  · rename_i hge
    rw [List.getElem_replicate, List.getD_eq_default _ 0 (not_lt.mp hge)]

/-- The signed value differs from the word by a multiple of `256 ^ w`. -/
theorem exists_toInt_eq (x : BitVec (8 * w)) : ∃ c : ℤ, x.toInt = x.toNat + c * 256 ^ w := by
  rw [BitVec.toInt_eq_toNat_cond, pow_mul]
  split
  · exact ⟨0, by simp⟩
  · exact ⟨-1, by push_cast; ring⟩

/-- So the two have the same digits below. -/
theorem digit_toInt (x : BitVec (8 * w)) {i : ℕ} (hi : i < w) :
    (x.toInt / 256 ^ i % 256).toNat = x.toNat / 256 ^ i % 256 := by
  obtain ⟨c, hc⟩ := exists_toInt_eq x
  obtain ⟨k, rfl⟩ := Nat.exists_eq_add_of_lt hi
  have hsplit : c * (256 : ℤ) ^ (i + k + 1) = c * 256 ^ k * 256 * 256 ^ i := by ring
  rw [hc, hsplit, Int.add_mul_ediv_right _ _ (by positivity), Int.add_mul_emod_self_right]
  exact_mod_cast Int.toNat_natCast _

/-- The bytes of a word are those of its signed value. -/
theorem Order.bytes_big (x : BitVec (8 * w)) : Order.big.bytes w x = bigEndian w x.toInt := by
  rw [Order.bytes, digitsAppend_eq (toNat_lt_pow x), bigEndian, Order.arrange, List.map_map]
  refine congrArg List.reverse (List.map_congr_left fun i hi => ?_)
  rw [digit_toInt x (List.mem_range.mp hi)]
  rfl

end Lib.ByteOrder
