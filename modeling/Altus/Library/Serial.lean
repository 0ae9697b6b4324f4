import Mathlib.Data.BitVec
import Mathlib.Tactic

namespace Altus.Serial

/-!
Serial numbers: a counter of `w` bits stands for an unbounded position.
The lemmas move each modular comparison to the positions that the counters stand for.
-/

/-- A difference of two serial numbers is the serial number of the distance. -/
theorem ofNat_sub {w : Nat} {later earlier : Nat} (ordered : earlier ≤ later) :
    BitVec.ofNat w later - BitVec.ofNat w earlier = BitVec.ofNat w (later - earlier) := by
  have split : later = (later - earlier) + earlier := by omega
  conv_lhs => rw [split, BitVec.ofNat_add]
  exact BitVec.add_sub_cancel _ _

/-- A distance below the modulus is read exactly. -/
theorem toNat_sub {w : Nat} {later earlier : Nat} (ordered : earlier ≤ later)
    (near : later < earlier + 2 ^ w) :
    (BitVec.ofNat w later - BitVec.ofNat w earlier).toNat = later - earlier := by
  rw [ofNat_sub ordered, BitVec.toNat_ofNat, Nat.mod_eq_of_lt (by omega)]

/-- A counter step is a step of the position. -/
theorem ofNat_succ {w : Nat} (position : Nat) :
    BitVec.ofNat w position + 1 = BitVec.ofNat w (position + 1) :=
  (BitVec.ofNat_add position 1).symm

theorem ofNat_succ_sub_one {w : Nat} (position : Nat) :
    BitVec.ofNat w (position + 1) - 1 = BitVec.ofNat w position := by
  rw [← ofNat_succ, BitVec.add_sub_cancel]

/-- A word is the serial number of its own value. -/
theorem ofNat_toNat {w : Nat} (word : BitVec w) : BitVec.ofNat w word.toNat = word := by
  rw [BitVec.ofNat_toNat, BitVec.setWidth_eq]

/-- Adding the distance to a serial number unwraps it at or after a known position. -/
theorem ofNat_add_distance {w : Nat} (position : Nat) (serial : BitVec w) :
    BitVec.ofNat w (position + (serial - BitVec.ofNat w position).toNat) = serial := by
  rw [BitVec.ofNat_add, ofNat_toNat, BitVec.add_comm, BitVec.sub_add_cancel]

/-- Positions closer than the modulus have equal serial numbers only when they are equal. -/
theorem ofNat_inj {w : Nat} {first second : Nat} (upper : first < second + 2 ^ w)
    (lower : second < first + 2 ^ w) :
    BitVec.ofNat w first = BitVec.ofNat w second ↔ first = second := by
  constructor
  · intro equal
    rcases Nat.le_total first second with ordered | ordered
    · have distance := toNat_sub (w := w) ordered lower
      rw [equal, BitVec.sub_self] at distance
      simp only [BitVec.toNat_ofNat, Nat.zero_mod] at distance
      omega
    · have distance := toNat_sub (w := w) ordered upper
      rw [equal, BitVec.sub_self] at distance
      simp only [BitVec.toNat_ofNat, Nat.zero_mod] at distance
      omega
  · rintro rfl
    rfl

/-- The signed reading of a word is positive in the lower half of its range. -/
theorem toInt_pos {w : Nat} (word : BitVec w) :
    0 < word.toInt ↔ 0 < word.toNat ∧ 2 * word.toNat < 2 ^ w := by
  have bound := word.isLt
  rw [BitVec.toInt_eq_toNat_cond]
  split <;> omega

/-- A negative distance is read as the complement of its absolute value. -/
theorem toNat_sub_reverse {w : Nat} {later earlier : Nat} (ordered : earlier < later)
    (near : later < earlier + 2 ^ w) :
    (BitVec.ofNat w earlier - BitVec.ofNat w later).toNat = 2 ^ w - (later - earlier) := by
  have distance := toNat_sub (w := w) (Nat.le_of_lt ordered) near
  have opposite : BitVec.ofNat w earlier - BitVec.ofNat w later =
      -(BitVec.ofNat w later - BitVec.ofNat w earlier) := by
    rw [BitVec.neg_sub, BitVec.sub_eq_add_neg, BitVec.add_comm]
  rw [opposite, BitVec.toNat_neg, distance, Nat.mod_eq_of_lt (by omega)]

/-- Inside one half range the signed comparison orders the positions. -/
theorem sub_pos_iff {w : Nat} {first second : Nat} (upper : 2 * first < 2 * second + 2 ^ w)
    (lower : 2 * second ≤ 2 * first + 2 ^ w) (positive : 0 < w) :
    0 < (BitVec.ofNat w first - BitVec.ofNat w second).toInt ↔ second < first := by
  have modulus : 2 ≤ 2 ^ w := by
    calc 2 = 2 ^ 1 := rfl
      _ ≤ 2 ^ w := Nat.pow_le_pow_right (by decide) positive
  rw [toInt_pos]
  rcases Nat.lt_trichotomy first second with behind | rfl | ahead
  · rw [toNat_sub_reverse behind (by omega)]
    omega
  · simp
  · rw [toNat_sub (Nat.le_of_lt ahead) (by omega)]
    omega

/-- A difference of two serial numbers, from their distances to a common base. -/
theorem toNat_sub_sub {w : Nat} (base first last : BitVec w) :
    (last - first).toNat =
      if (first - base).toNat ≤ (last - base).toNat then (last - base).toNat - (first - base).toNat
      else 2 ^ w - ((first - base).toNat - (last - base).toNat) := by
  have upper := (first - base).isLt
  rw [← sub_sub_sub_cancel_right last first base, BitVec.toNat_sub]
  split
  · rw [show 2 ^ w - (first - base).toNat + (last - base).toNat =
      ((last - base).toNat - (first - base).toNat) + 2 ^ w by omega, Nat.add_mod_right, Nat.mod_eq_of_lt (by omega)]
  · rw [Nat.mod_eq_of_lt (by omega)]
    omega

/-- The signed comparison orders the distances to a base as long as they differ by less than half of the range. -/
theorem sub_pos_iff_of_base {w : Nat} {base first second : BitVec w}
    (upper : 2 * (first - base).toNat < 2 * (second - base).toNat + 2 ^ w)
    (lower : 2 * (second - base).toNat ≤ 2 * (first - base).toNat + 2 ^ w) :
    0 < (first - second).toInt ↔ (second - base).toNat < (first - base).toNat := by
  have bound := (first - base).isLt
  rw [toInt_pos, toNat_sub_sub base second first]
  split <;> omega

/-- A serial number that is not behind another one lies at or after it, at most half of the range away. -/
theorem distance_of_not_behind {w : Nat} {base first second : BitVec w} (inTime : ¬ 0 < (first - second).toInt)
    (near : 2 * (first - base).toNat < 2 ^ w) :
    (first - base).toNat ≤ (second - base).toNat ∧ 2 * (second - base).toNat ≤ 2 * (first - base).toNat + 2 ^ w := by
  have bound := (second - base).isLt
  rw [toInt_pos, toNat_sub_sub base second first] at inTime
  split at inTime <;> omega

/-- The signed reading of a word is not negative in the lower half of its range. -/
theorem toInt_nonneg {w : Nat} (word : BitVec w) : 0 ≤ word.toInt ↔ 2 * word.toNat < 2 ^ w := by
  have bound := word.isLt
  rw [BitVec.toInt_eq_toNat_cond]
  split <;> omega

/-- Only equal serial numbers have the signed distance zero. -/
theorem sub_toInt_eq_zero {w : Nat} {first second : BitVec w} : (first - second).toInt = 0 ↔ first = second := by
  rw [← BitVec.toInt_zero, BitVec.toInt_inj]
  exact sub_eq_zero

theorem sub_neg_iff {w : Nat} {first second : BitVec w} :
    (first - second).toInt < 0 ↔ ¬ 0 < (first - second).toInt ∧ first ≠ second := by
  have zero := @sub_toInt_eq_zero w first second
  rw [Ne, ← zero]
  omega

/-- The unsigned distance of two different serial numbers is positive. -/
theorem sub_pos_iff_ne {w : Nat} {first second : BitVec w} : 0 < first - second ↔ first ≠ second := by
  constructor
  · rintro positive rfl
    rw [BitVec.sub_self] at positive
    exact Nat.lt_irrefl _ positive
  · intro differs
    apply Nat.pos_of_ne_zero
    intro zero
    exact differs (sub_eq_zero.mp (BitVec.toNat_inj.mp zero))

theorem sub_nonneg_iff_of_base {w : Nat} {base first second : BitVec w}
    (upper : 2 * (first - base).toNat < 2 * (second - base).toNat + 2 ^ w)
    (lower : 2 * (second - base).toNat ≤ 2 * (first - base).toNat + 2 ^ w) :
    0 ≤ (first - second).toInt ↔ (second - base).toNat ≤ (first - base).toNat := by
  have bound := (first - base).isLt
  rw [toInt_nonneg, toNat_sub_sub base second first]
  split <;> omega

/-- Words with the same distance to a base are the same. -/
theorem distance_inj {w : Nat} (base first second : BitVec w) :
    (first - base).toNat = (second - base).toNat ↔ first = second := by
  rw [BitVec.toNat_inj]
  exact sub_left_inj

/-- A step inside the range adds to the distance. -/
theorem distance_add {w : Nat} {base word step : BitVec w} (inside : (word - base).toNat + step.toNat < 2 ^ w) :
    (word + step - base).toNat = (word - base).toNat + step.toNat := by
  rw [show word + step - base = word - base + step by ring, BitVec.toNat_add, Nat.mod_eq_of_lt inside]

/-- Seen from a base before both ends, a serial interval is an interval of distances. -/
theorem sub_lt_sub_iff {w : Nat} {base first last : BitVec w} (point : BitVec w)
    (ordered : (first - base).toNat ≤ (last - base).toNat) :
    (point - first).toNat < (last - first).toNat ↔
      (first - base).toNat ≤ (point - base).toNat ∧ (point - base).toNat < (last - base).toNat := by
  have lower := (last - base).isLt
  rw [toNat_sub_sub base first point, toNat_sub_sub base first last, if_pos ordered]
  split <;> omega

section Cyclic

variable {w : Nat} {base word : BitVec w} {property : BitVec w → Prop}

/-- The next word is one further from a base, unless it is the base. -/
theorem distance_succ (other : word + 1 ≠ base) : (word + 1 - base).toNat = (word - base).toNat + 1 := by
  have bound := (word - base).isLt
  have moved : word + 1 - base = word - base + 1 := by ring
  rcases Nat.lt_or_ge ((word - base).toNat + 1) (2 ^ w) with inside | last
  · rw [moved, ← ofNat_toNat (word - base), ofNat_succ, BitVec.toNat_ofNat, ofNat_toNat, Nat.mod_eq_of_lt inside]
  · apply absurd _ other
    rw [← sub_eq_zero, moved, ← ofNat_toNat (word - base), ofNat_succ,
      show (word - base).toNat + 1 = 2 ^ w by omega]
    apply BitVec.eq_of_toNat_eq
    rw [BitVec.toNat_ofNat, Nat.mod_self]
    rfl

/-- The word before a base is the last one from it. -/
theorem distance_last (last : word + 1 = base) (other : BitVec w) : (other - base).toNat ≤ (word - base).toNat := by
  by_contra beyond
  have bound := (other - base).isLt
  have wraps : (word - base) + 1 = 0 := by
    rw [← last]
    ring
  rw [← ofNat_toNat (word - base), ofNat_succ] at wraps
  have value := congrArg BitVec.toNat wraps
  rw [BitVec.toNat_ofNat, Nat.mod_eq_of_lt (by omega)] at value
  simp at value

/-- No word with the property comes before this one in cyclic order from a base. -/
def NoneBefore (base : BitVec w) (property : BitVec w → Prop) (word : BitVec w) : Prop :=
  ∀ other, property other → (word - base).toNat ≤ (other - base).toNat

/-- The first word with the property in cyclic order from a base. -/
structure FirstFrom (base : BitVec w) (property : BitVec w → Prop) (word : BitVec w) : Prop where
  holds : property word
  first : NoneBefore base property word

theorem noneBefore_base (base : BitVec w) : NoneBefore base property base := by
  intro other _
  simp

/-- A search goes on behind a word without the property. -/
theorem NoneBefore.next (before : NoneBefore base property word) (lacks : ¬ property word) (more : word + 1 ≠ base) :
    NoneBefore base property (word + 1) := by
  intro other holds
  have reached := before other holds
  have apart : (word - base).toNat ≠ (other - base).toNat := by
    rw [Ne, distance_inj]
    rintro rfl
    exact lacks holds
  rw [distance_succ more]
  omega

/-- A search that is back at its base has met every word. -/
theorem NoneBefore.none (before : NoneBefore base property word) (lacks : ¬ property word) (last : word + 1 = base)
    (other : BitVec w) : ¬ property other := by
  intro holds
  have same := (distance_inj base word other).mp (Nat.le_antisymm (before other holds) (distance_last last other))
  exact lacks (same ▸ holds)

end Cyclic

end Altus.Serial
