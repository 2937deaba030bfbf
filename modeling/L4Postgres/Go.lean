import Mathlib

/-! The pieces of Go's run time both matchers use, as pure functions: `uint32` arithmetic,
bounds-checked indexing and slicing, `error` values with `errors.Is`, and big-endian
words. Everything that can panic returns an `Option`; `none` is the panic. -/

namespace L4Postgres

def u32 (n : Nat) : Nat := n % 2 ^ 32

def sub32 (a b : Nat) : Nat := u32 (a + 2 ^ 32 - b)

theorem u32_of_lt {n : Nat} (h : n < 2 ^ 32) : u32 n = n := Nat.mod_eq_of_lt h

theorem u32_lt (n : Nat) : u32 n < 2 ^ 32 := Nat.mod_lt _ (by decide)

theorem sub32_of_le {a b : Nat} (hb : b ≤ a) (ha : a < 2 ^ 32) : sub32 a b = a - b := by
  unfold sub32 u32
  omega

/-- `s[i]`. -/
def index (s : List UInt8) (i : Nat) : Option UInt8 := s[i]?

/-- `s[lo:hi]` for a slice whose capacity is its length, as every buffer made
by `make` is. -/
def slice (s : List UInt8) (lo hi : Nat) : Option (List UInt8) :=
  if lo ≤ hi ∧ hi ≤ s.length then some ((s.take hi).drop lo) else none

theorem slice_of_le {s : List UInt8} {lo hi : Nat} (h : lo ≤ hi) (h' : hi ≤ s.length) :
    slice s lo hi = some ((s.take hi).drop lo) := if_pos ⟨h, h'⟩

theorem slice_eq_none {s : List UInt8} {lo hi : Nat} (h : s.length < hi) :
    slice s lo hi = none := if_neg (by omega)

/-- The `error` values met on a connection: `io.EOF`, `io.ErrUnexpectedEOF`,
a fault of the transport below, `errors.New`, and `fmt.Errorf` with `%w`. -/
inductive Error where
  | eof
  | unexpectedEOF
  | fault (code : Nat)
  | new (text : String)
  | wrap (text : String) (err : Error)
  deriving DecidableEq, Repr

/-- `errors.Is`: `err` is `target` or wraps it. -/
def errorsIs (err target : Error) : Bool :=
  err == target ||
    match err with
    | .wrap _ inner => errorsIs inner target
    | _ => false

def notNul (x : UInt8) : Bool := x != 0

@[simp] theorem notNul_eq_true {x : UInt8} : notNul x = true ↔ x ≠ 0 := by simp [notNul]

theorem takeWhile_notNul_split (xs : List UInt8) :
    xs = xs.takeWhile notNul ∨
      xs = xs.takeWhile notNul ++ 0 :: xs.drop ((xs.takeWhile notNul).length + 1) := by
  induction xs with
  | nil => exact .inl rfl
  | cons x xs ih =>
    by_cases hx : x = 0
    · subst hx; right; simp [notNul]
    · rcases ih with h | h
      · left; rw [List.takeWhile_cons_of_pos (by simpa using hx), ← h]
      · right
        rw [List.takeWhile_cons_of_pos (by simpa using hx)]
        simp only [List.length_cons, List.drop_succ_cons, List.cons_append]
        exact congrArg (x :: ·) h

theorem eq_takeWhile_notNul_append {s : List UInt8} (h : (s.takeWhile notNul).length < s.length) :
    s = s.takeWhile notNul ++ 0 :: s.drop ((s.takeWhile notNul).length + 1) :=
  (takeWhile_notNul_split s).resolve_left fun h' => by rw [← h'] at h; exact lt_irrefl _ h

theorem takeWhile_notNul_eq_nil_iff {t : List UInt8} :
    t.takeWhile notNul = [] ↔ t = [] ∨ ∃ t', t = 0 :: t' := by
  cases t with
  | nil => simp
  | cons x t => by_cases hx : x = 0 <;> simp [List.takeWhile_cons, hx]

theorem zero_not_mem_takeWhile_notNul (xs : List UInt8) : 0 ∉ xs.takeWhile notNul := fun h => by
  simpa [notNul] using List.mem_takeWhile_imp h

theorem offset_add_takeWhile_notNul_le (data : List UInt8) (o : Nat) (h : o ≤ data.length) :
    o + ((data.drop o).takeWhile notNul).length ≤ data.length := by
  have := (List.takeWhile_prefix notNul (l := data.drop o)).length_le
  simp only [List.length_drop] at this
  omega

theorem drop_eq_takeWhile_notNul_append (data : List UInt8) (o : Nat)
    (h : o + ((data.drop o).takeWhile notNul).length < data.length) :
    data.drop o = (data.drop o).takeWhile notNul ++
      0 :: data.drop (o + ((data.drop o).takeWhile notNul).length + 1) := by
  have h' := eq_takeWhile_notNul_append (s := data.drop o) (by simp only [List.length_drop]; omega)
  rwa [List.drop_drop, ← Nat.add_assoc] at h'

theorem takeWhile_notNul_of_nulFree {k : List UInt8} (h : 0 ∉ k) (rest : List UInt8) :
    (k ++ 0 :: rest).takeWhile notNul = k := by
  induction k with
  | nil => simp [notNul]
  | cons x k ih =>
    have hx : x ≠ 0 := fun hx => h (hx ▸ List.mem_cons_self x k)
    rw [List.cons_append, List.takeWhile_cons_of_pos (by simpa using hx),
      ih fun hk => h (List.mem_cons_of_mem x hk)]

namespace BigEndian

/-- `binary.BigEndian.Uint32`, whose `_ = b[3]` panics below four bytes. The
four shifted bytes do not overlap, so their `|` is their sum. -/
def uint32 : List UInt8 → Option Nat
  | b0 :: b1 :: b2 :: b3 :: _ =>
    some (b0.toNat * 2 ^ 24 + b1.toNat * 2 ^ 16 + b2.toNat * 2 ^ 8 + b3.toNat)
  | _ => none

/-- `binary.BigEndian.PutUint32` into a fresh four-byte buffer. -/
def putUint32 (v : Nat) : List UInt8 :=
  [UInt8.ofNat (v >>> 24), UInt8.ofNat (v >>> 16), UInt8.ofNat (v >>> 8), UInt8.ofNat v]

@[simp] theorem putUint32_length (v : Nat) : (putUint32 v).length = 4 := rfl

theorem uint32_lt {b : List UInt8} {v : Nat} (h : uint32 b = some v) : v < 2 ^ 32 := by
  match b, h with
  | b0 :: b1 :: b2 :: b3 :: _, h =>
    simp only [uint32, Option.some.injEq] at h
    have := b0.toNat_lt_size; have := b1.toNat_lt_size; have := b2.toNat_lt_size
    have := b3.toNat_lt_size
    simp only [UInt8.size] at *
    omega

theorem uint32_isSome {b : List UInt8} (h : 4 ≤ b.length) : (uint32 b).isSome := by
  match b, h with
  | _ :: _ :: _ :: _ :: _, _ => rfl

theorem uint32_append {b : List UInt8} (t : List UInt8) (h : 4 ≤ b.length) :
    uint32 (b ++ t) = uint32 b := by
  match b, h with
  | _ :: _ :: _ :: _ :: _, _ => rfl

theorem toNat_ofNat (n : Nat) : (UInt8.ofNat n).toNat = n % 256 := by
  simp [UInt8.toNat, UInt8.ofNat]

theorem uint32_putUint32 (v : Nat) : uint32 (putUint32 v) = some (v % 2 ^ 32) := by
  simp only [uint32, putUint32, toNat_ofNat, Nat.shiftRight_eq_div_pow, Option.some.injEq]
  omega

theorem putUint32_uint32 {b : List UInt8} {v : Nat} (hb : b.length = 4) (h : uint32 b = some v) :
    putUint32 v = b := by
  match b, hb, h with
  | [b0, b1, b2, b3], _, h =>
    simp only [uint32, Option.some.injEq] at h
    have := b0.toNat_lt_size; have := b1.toNat_lt_size; have := b2.toNat_lt_size
    have := b3.toNat_lt_size
    simp only [UInt8.size] at *
    simp only [putUint32, List.cons.injEq, and_true]
    refine ⟨?_, ?_, ?_, ?_⟩ <;> apply UInt8.ext <;>
      simp only [toNat_ofNat, Nat.shiftRight_eq_div_pow] <;> omega

theorem uint32_putUint32_append {v : Nat} (hv : v < 2 ^ 32) (t : List UInt8) :
    uint32 (putUint32 v ++ t) = some v := by
  rw [uint32_append t (putUint32_length v).ge, uint32_putUint32, Nat.mod_eq_of_lt hv]

theorem uint32_take_putUint32_append {v : Nat} (hv : v < 2 ^ 32) (t : List UInt8) :
    uint32 ((putUint32 v ++ t).take 4) = some v := by
  rw [List.take_left' (putUint32_length v), uint32_putUint32, Nat.mod_eq_of_lt hv]

theorem eq_putUint32_append {data : List UInt8} {v : Nat} (h4 : 4 ≤ data.length)
    (hv : uint32 data = some v) : data = putUint32 v ++ data.drop 4 := by
  have h : uint32 (data.take 4) = some v := by
    rw [← uint32_append (data.drop 4) (by simp only [List.length_take]; omega),
      List.take_append_drop, hv]
  rw [putUint32_uint32 (by simp only [List.length_take]; omega) h, List.take_append_drop]

theorem eq_frame {bytes : List UInt8} {L : Nat} (hL : uint32 (bytes.take 4) = some L)
    (h4 : 4 ≤ L) (hs : L ≤ bytes.length) :
    bytes = putUint32 (((bytes.drop 4).take (L - 4)).length + 4) ++
      (bytes.drop 4).take (L - 4) ++ bytes.drop L := by
  have hlen : ((bytes.drop 4).take (L - 4)).length + 4 = L := by
    simp only [List.length_take, List.length_drop]; omega
  have hrest : bytes.drop L = (bytes.drop 4).drop (L - 4) := by
    rw [List.drop_drop]; congr 1; omega
  rw [hlen, putUint32_uint32 (by simp only [List.length_take]; omega) hL, hrest, List.append_assoc,
    List.take_append_drop, List.take_append_drop]

end BigEndian

end L4Postgres
