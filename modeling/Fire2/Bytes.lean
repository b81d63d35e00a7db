import Mathlib.Algebra.GroupWithZero.Nat
import Mathlib.Data.List.Basic
import Mathlib.Data.List.TakeWhile

/-! Byte buffers as a program slices them: a slice expression out of range is no
value, since it panics. Integers of a fixed width in either byte order. -/

namespace Fire2

abbrev Bytes := List UInt8

namespace Bytes

def zeros (n : Nat) : Bytes := List.replicate n 0

def slice (b : Bytes) (lo hi : Nat) : Option Bytes :=
  if lo ≤ hi ∧ hi ≤ b.length then some ((b.drop lo).take (hi - lo)) else none

def splice (b : Bytes) (lo : Nat) (src : Bytes) : Bytes :=
  b.take lo ++ src ++ b.drop (lo + src.length)

def copy (b : Bytes) (lo hi : Nat) (src : Bytes) : Option Bytes :=
  if lo ≤ hi ∧ hi ≤ b.length then some (b.splice lo (src.take (hi - lo))) else none

def cString (b : Bytes) : Bytes :=
  match b.findIdx? (· = 0) with
  | some i => b.take i
  | none => b

@[simp] theorem length_zeros (n : Nat) : (zeros n).length = n := List.length_replicate

section Slices
variable {a m b c src : Bytes} {lo hi n : Nat}

theorem slice_eq_some (h : lo ≤ hi ∧ hi ≤ b.length) :
    b.slice lo hi = some ((b.drop lo).take (hi - lo)) :=
  if_pos h

theorem slice_bounds (h : b.slice lo hi = some c) :
    lo ≤ hi ∧ hi ≤ b.length ∧ c.length = hi - lo := by
  unfold slice at h
  split at h
  · rename_i inside
    cases h
    refine ⟨inside.1, inside.2, ?_⟩
    rw [List.length_take, List.length_drop]
    omega
  · cases h

theorem slice_slice {i j : Nat} (h : b.slice lo hi = some c) (le : lo + j ≤ hi) :
    c.slice i j = b.slice (lo + i) (lo + j) := by
  obtain ⟨order, inside, length⟩ := slice_bounds h
  rw [slice_eq_some ⟨order, inside⟩] at h
  cases h
  unfold slice
  rw [length]
  by_cases ordered : i ≤ j
  · rw [if_pos (by omega), if_pos (by omega), List.drop_take, List.drop_drop, List.take_take,
      Nat.add_sub_add_left, Nat.min_eq_left (by omega)]
  · rw [if_neg (by omega), if_neg (by omega)]

theorem slice_append_right (h : a.length ≤ lo) (le : lo ≤ hi) :
    Bytes.slice (a ++ b) lo hi = b.slice (lo - a.length) (hi - a.length) := by
  unfold slice
  rw [List.drop_append, List.drop_of_length_le h, List.nil_append, List.length_append]
  split
  · rw [if_pos (by omega), Nat.sub_sub_sub_cancel_right (by omega)]
  · rw [if_neg (by omega)]

@[simp] theorem slice_head : Bytes.slice (a ++ b) 0 a.length = some a := by
  rw [slice_eq_some (by simp), List.drop_zero, Nat.sub_zero, List.take_left]

theorem slice_field (start : a.length = lo) (stop : lo + m.length = hi) :
    Bytes.slice (a ++ (m ++ b)) lo hi = some m := by
  subst start stop
  rw [slice_append_right (Nat.le_refl _) (Nat.le_add_right _ _), Nat.sub_self,
    Nat.add_sub_cancel_left, slice_head]

theorem slice_rest (start : a.length = lo) : Bytes.slice (a ++ b) lo (a ++ b).length = some b := by
  have whole : Bytes.slice (a ++ (b ++ [])) lo (lo + b.length) = some b := slice_field start rfl
  rwa [List.append_nil, ← start, ← List.length_append, start] at whole

theorem splice_append_right (h : a.length ≤ lo) :
    Bytes.splice (a ++ b) lo src = a ++ b.splice (lo - a.length) src := by
  unfold splice
  rw [List.take_append, List.drop_append, List.take_of_length_le h,
    List.drop_of_length_le (by omega)]
  simp [Nat.sub_add_comm h]

theorem splice_head (same : a.length = src.length) : Bytes.splice (a ++ b) 0 src = src ++ b := by
  rw [splice, List.take_zero, List.nil_append, Nat.zero_add, ← same, List.drop_left]

theorem length_splice (h : lo + src.length ≤ b.length) : (b.splice lo src).length = b.length := by
  simp only [splice, List.length_append, List.length_take, List.length_drop]
  omega

theorem slice_splice_before (h : hi ≤ lo) (room : lo ≤ b.length) :
    (b.splice lo src).slice n hi = b.slice n hi := by
  unfold slice
  have long : hi ≤ (b.splice lo src).length ↔ hi ≤ b.length := by
    simp only [splice, List.length_append, List.length_take, List.length_drop]
    omega
  simp only [long]
  split
  · have kept : (b.take lo).length = lo := List.length_take_of_le room
    rw [splice, List.append_assoc, List.drop_append_of_le_length (by omega), List.drop_take,
      List.take_append_of_le_length (by simp only [List.length_take, List.length_drop]; omega),
      List.take_take, Nat.min_eq_left (by omega)]
  · rfl

theorem slice_splice_after (h : lo + src.length ≤ n) (room : lo + src.length ≤ b.length) :
    (b.splice lo src).slice n hi = b.slice n hi := by
  unfold slice
  rw [length_splice room]
  have kept : (b.take lo ++ src).length = lo + src.length := by
    rw [List.length_append, List.length_take_of_le (by omega)]
  rw [splice, List.drop_append, kept, List.drop_of_length_le (by omega),
    List.nil_append, List.drop_drop, Nat.add_sub_cancel' h]

/-- `c` is `b` with the bytes from `lo` to `hi` overwritten. -/
structure Wrote (lo hi : Nat) (b c : Bytes) : Prop where
  length : c.length = b.length
  elsewhere : ∀ from_ to_, to_ ≤ lo ∨ hi ≤ from_ → c.slice from_ to_ = b.slice from_ to_

theorem splice_wrote (h : lo + src.length ≤ b.length) :
    Wrote lo (lo + src.length) b (b.splice lo src) where
  length := length_splice h
  elsewhere from_ to_ apart := by
    obtain before | after := apart
    · exact slice_splice_before before (by omega)
    · exact slice_splice_after after h

theorem slice_splice_self (room : lo + src.length ≤ b.length) :
    (b.splice lo src).slice lo (lo + src.length) = some src := by
  rw [splice, List.append_assoc]
  exact slice_field (List.length_take_of_le (by omega)) rfl

theorem copy_eq_some (h : lo ≤ hi ∧ hi ≤ b.length) (fits : src.length ≤ hi - lo) :
    b.copy lo hi src = some (b.splice lo src) := by
  rw [copy, if_pos h, List.take_of_length_le fits]

theorem copy_wrote (b : Bytes) (lo hi : Nat) (src : Bytes) (h : lo ≤ hi ∧ hi ≤ b.length)
    (fits : src.length ≤ hi - lo) : ∃ c, b.copy lo hi src = some c ∧
    Wrote lo (lo + src.length) b c ∧ c.slice lo (lo + src.length) = some src :=
  ⟨_, copy_eq_some h fits, splice_wrote (by omega), slice_splice_self (by omega)⟩

theorem copy_append_right (h : a.length ≤ lo) (le : lo ≤ hi) : Bytes.copy (a ++ b) lo hi src =
    (b.copy (lo - a.length) (hi - a.length) src).map fun d => a ++ d := by
  unfold copy
  rw [splice_append_right h, List.length_append]
  split
  · rw [if_pos (by omega), Nat.sub_sub_sub_cancel_right (by omega), Option.map_some]
  · rw [if_neg (by omega), Option.map_none]

theorem copy_head (same : m.length = src.length) (fits : src.length ≤ hi)
    (room : hi ≤ m.length + b.length) : Bytes.copy (m ++ b) 0 hi src = some (src ++ b) := by
  rw [copy_eq_some ⟨Nat.zero_le _, by rwa [List.length_append]⟩ fits, splice_head same]

end Slices

section CString
variable {b : Bytes} {n : Nat}

theorem cString_eq_takeWhile (b : Bytes) : b.cString = b.takeWhile (· ≠ 0) := by
  induction b with
  | nil => rfl
  | cons c b ih =>
    by_cases zero : c = 0
    · simp [cString, List.findIdx?_cons, zero]
    · rw [List.takeWhile_cons_of_pos (by simpa using zero), ← ih]
      unfold cString
      rw [List.findIdx?_cons, if_neg (by simpa using zero)]
      cases b.findIdx? (· = 0) <;> rfl

theorem zero_notMem_cString (b : Bytes) : (0 : UInt8) ∉ b.cString := by
  rw [cString_eq_takeWhile]
  intro mem
  simpa using List.mem_takeWhile_imp mem

theorem cString_terminated (plain : (0 : UInt8) ∉ b) (h : 0 < n) (rest : Bytes) :
    (b ++ (zeros n ++ rest)).cString = b := by
  obtain ⟨n, rfl⟩ := Nat.exists_eq_succ_of_ne_zero h.ne'
  have all : ∀ c ∈ b, decide (c ≠ 0) = true := fun c mem => decide_eq_true
    fun zero => plain (zero ▸ mem)
  rw [cString_eq_takeWhile, List.takeWhile_append_of_pos all]
  simp [zeros, List.replicate_succ]

end CString
end Bytes

/-- The byte order of the machine. -/
inductive Endian where
  | little
  | big
  deriving DecidableEq, Repr

namespace Endian

def littleBytes : Nat → Nat → Bytes
  | 0, _ => []
  | w + 1, n => UInt8.ofNat n :: littleBytes w (n / 256)

def littleValue : Bytes → Nat
  | [] => 0
  | c :: b => c.toNat + 256 * littleValue b

def encode (o : Endian) (w n : Nat) : Bytes :=
  match o with
  | little => littleBytes w n
  | big => (littleBytes w n).reverse

def decode (o : Endian) (b : Bytes) : Nat :=
  match o with
  | little => littleValue b
  | big => littleValue b.reverse

def get (o : Endian) (w : Nat) (b : Bytes) (off : Nat) : Option Nat :=
  (b.slice off (off + w)).map o.decode

def put (o : Endian) (w : Nat) (b : Bytes) (off n : Nat) : Option Bytes :=
  if off + w ≤ b.length then some (b.splice off (o.encode w n)) else none

section Integers
variable {o : Endian} {w n off lo : Nat} {a m b src : Bytes}

@[simp] theorem length_littleBytes (w n : Nat) : (littleBytes w n).length = w := by
  induction w generalizing n with
  | zero => rfl
  | succ w ih => rw [littleBytes, List.length_cons, ih]

@[simp] theorem length_encode : (o.encode w n).length = w := by
  cases o <;> simp [encode]

theorem littleValue_littleBytes (w n : Nat) : littleValue (littleBytes w n) = n % 256 ^ w := by
  induction w generalizing n with
  | zero => simp [littleBytes, littleValue, Nat.mod_one]
  | succ w ih => simp [littleBytes, littleValue, ih, Nat.pow_succ', Nat.mod_mul]

theorem littleValue_lt (b : Bytes) : littleValue b < 256 ^ b.length := by
  induction b with
  | nil => exact Nat.one_pos
  | cons c b ih =>
    have small := c.toNat_lt
    rw [littleValue, List.length_cons, Nat.pow_succ]
    omega

theorem decode_encode : o.decode (o.encode w n) = n % 256 ^ w := by
  cases o <;> simp [decode, encode, littleValue_littleBytes]

theorem decode_lt (b : Bytes) : o.decode b < 256 ^ b.length := by
  cases o with
  | little => exact littleValue_lt b
  | big => simpa [decode] using littleValue_lt b.reverse

theorem get_inside (o : Endian) (w off : Nat) (h : off + w ≤ b.length) :
    ∃ n, o.get w b off = some n ∧ n < 256 ^ w := by
  obtain ⟨c, slice⟩ : ∃ c, b.slice off (off + w) = some c :=
    ⟨_, Bytes.slice_eq_some ⟨Nat.le_add_right off w, h⟩⟩
  have width : c.length = w := by
    rw [(Bytes.slice_bounds slice).2.2, Nat.add_sub_cancel_left]
  exact ⟨o.decode c, by rw [get, slice, Option.map_some], width ▸ decode_lt c⟩

theorem get_slice {c : Bytes} {hi : Nat} (h : b.slice lo hi = some c) (le : lo + (off + w) ≤ hi) :
    o.get w c off = o.get w b (lo + off) := by
  rw [get, Bytes.slice_slice h le, get, Nat.add_assoc]

theorem get_append_right (h : a.length ≤ off) :
    o.get w (a ++ b) off = o.get w b (off - a.length) := by
  rw [get, Bytes.slice_append_right h (Nat.le_add_right _ _), get, Nat.sub_add_comm h]

theorem get_head : o.get w (o.encode w n ++ b) 0 = some (n % 256 ^ w) := by
  have here := Bytes.slice_head (a := o.encode w n) (b := b)
  rw [length_encode] at here
  rw [get, Nat.zero_add, here, Option.map_some, decode_encode]

theorem put_eq_some (h : off + w ≤ b.length) :
    o.put w b off n = some (b.splice off (o.encode w n)) :=
  if_pos h

theorem put_append_right (h : a.length ≤ off) :
    o.put w (a ++ b) off n = (o.put w b (off - a.length) n).map fun c => a ++ c := by
  unfold put
  rw [Bytes.splice_append_right h, List.length_append]
  split
  · rw [if_pos (by omega), Option.map_some]
  · rw [if_neg (by omega), Option.map_none]

theorem put_head (width : m.length = w) : o.put w (m ++ b) 0 n = some (o.encode w n ++ b) := by
  have room : 0 + w ≤ (m ++ b).length := by
    rw [List.length_append]
    omega
  rw [put_eq_some room, Bytes.splice_head (by rw [length_encode, width])]

theorem put_wrote (o : Endian) (w off : Nat) (h : off + w ≤ b.length) (n : Nat) :
    ∃ c, o.put w b off n = some c ∧
    Bytes.Wrote off (off + w) b c ∧ o.get w c off = some (n % 256 ^ w) := by
  have room : off + (o.encode w n).length ≤ b.length := by rwa [length_encode]
  have wrote := Bytes.splice_wrote room
  have here := Bytes.slice_splice_self room
  rw [length_encode] at wrote here
  exact ⟨_, put_eq_some h, wrote, by rw [get, here, Option.map_some, decode_encode]⟩

theorem get_wrote {hi : Nat} (h : Bytes.Wrote lo hi a b) (apart : off + w ≤ lo ∨ hi ≤ off) :
    o.get w b off = o.get w a off := by
  rw [get, h.elsewhere _ _ apart, get]

end Integers
end Endian
end Fire2
