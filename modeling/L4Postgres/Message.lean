import L4Postgres.Go

/-! The bounded matcher's `message` of src/unnamed/part_000: a cursor over a payload that
records the first failed read in `err` and makes every later read a no-op. -/

namespace L4Postgres.Bounded

structure Message where
  data : List UInt8
  offset : Nat
  err : Option Error
  lastReadStringStartOffset : Nat
  deriving DecidableEq, Repr

def newMessageFromBytes (b : List UInt8) : Message := ⟨b, 0, none, 0⟩

namespace Message

def readUint32 (b : Message) : Option (Nat × Message) :=
  if b.err.isSome then some (0, b)
  else if u32 (b.offset + 4) > u32 b.data.length then
    some (0, { b with err := some (.wrap "readUint32: " .unexpectedEOF) })
  else do
    let r ← BigEndian.uint32 (← slice b.data b.offset (u32 (b.offset + 4)))
    pure (r, { b with offset := u32 (b.offset + 4) })

/-- `for ; end < maximum && b.data[end] != 0; end++ {}` run from `end`. It runs
at most `maximum - end` times, the fuel `readString` gives it. -/
def scanLoop (data : List UInt8) (maximum : Nat) : Nat → Nat → Option Nat
  | 0, e => some e
  | fuel + 1, e =>
    if e < maximum then do
      if (← index data e) ≠ 0 then scanLoop data maximum fuel (u32 (e + 1)) else pure e
    else pure e

def readString (b : Message) : Option (List UInt8 × Message) :=
  if b.err.isSome then some ([], b) else
  let b := { b with lastReadStringStartOffset := b.offset }
  let start := b.offset
  let maximum := u32 b.data.length
  if start ≥ maximum then
    if start = maximum then some ([], { b with err := none })
    else some ([], { b with err := some (.new ("readString: offset " ++ toString start ++
      " past buffer length " ++ toString maximum)) })
  else do
    let e ← scanLoop b.data maximum (maximum - start) start
    if e = maximum then do
      let r ← slice b.data start maximum
      let err := Error.new "readString: missing null terminator"
      pure (r, { b with err := some err, offset := maximum })
    else do
      let r ← slice b.data start e
      pure (r, { b with offset := u32 (e + 1) })

def pending (b : Message) : List UInt8 := (b.data.drop b.offset).takeWhile notNul

theorem scanLoop_eq {data : List UInt8} (hd : data.length < 2 ^ 32) :
    ∀ fuel e, e ≤ data.length → data.length - e ≤ fuel →
      scanLoop data data.length fuel e =
        some (e + ((data.drop e).takeWhile notNul).length) := by
  intro fuel
  induction fuel with
  | zero =>
    intro e he hf
    have : e = data.length := by omega
    subst this; simp [scanLoop]
  | succ fuel ih =>
    intro e he hf
    by_cases hlt : e < data.length
    · have hx : data[e]? = some data[e] := List.getElem?_eq_getElem hlt
      have hdrop : data.drop e = data[e] :: data.drop (e + 1) := List.drop_eq_getElem_cons hlt
      by_cases h0 : data[e] = 0
      · simp [scanLoop, hlt, index, hx, h0, hdrop]
      · have hs := ih (e + 1) (by omega) (by omega)
        rw [hdrop, List.takeWhile_cons_of_pos (by simpa using h0)]
        simp [scanLoop, hlt, index, hx, h0, u32_of_lt (show e + 1 < 2 ^ 32 by omega), hs]
        omega
    · have : e = data.length := by omega
      subst this; simp [scanLoop]

theorem take_pending (b : Message) :
    (b.data.drop b.offset).take b.pending.length = b.pending :=
  (List.prefix_iff_eq_take.mp (List.takeWhile_prefix _)).symm

theorem drop_offset_of_missing {b : Message} (h : b.offset + b.pending.length = b.data.length) :
    b.data.drop b.offset = b.pending := by
  have hl : (b.data.drop b.offset).length ≤ b.pending.length := by simp; omega
  calc b.data.drop b.offset = (b.data.drop b.offset).take b.pending.length :=
        (List.take_of_length_le hl).symm
    _ = b.pending := take_pending b

theorem readString_found {b : Message} (he : b.err = none) (hd : b.data.length < 2 ^ 32)
    (hf : b.offset + b.pending.length < b.data.length) :
    b.readString = some (b.pending,
      { b with
        lastReadStringStartOffset := b.offset
        offset := b.offset + b.pending.length + 1 }) := by
  have hs := scanLoop_eq hd (b.data.length - b.offset) b.offset (by omega) le_rfl
  have hne : b.offset + b.pending.length ≠ b.data.length := by omega
  have hsl : slice b.data b.offset (b.offset + b.pending.length) = some b.pending := by
    rw [slice_of_le (by omega) (by omega), List.drop_take, Nat.add_sub_cancel_left, take_pending]
  have hw : u32 (b.offset + b.pending.length + 1) = b.offset + b.pending.length + 1 :=
    u32_of_lt (by omega)
  simp only [pending] at hs hne hsl hw
  simp [readString, he, u32_of_lt hd, hs, hne, hsl, hw, pending,
    Nat.not_le.mpr (show b.offset < b.data.length by omega)]

theorem readString_missing {b : Message} (he : b.err = none) (hd : b.data.length < 2 ^ 32)
    (hlt : b.offset < b.data.length) (hm : b.offset + b.pending.length = b.data.length) :
    b.readString = some (b.data.drop b.offset,
      { b with
        lastReadStringStartOffset := b.offset
        err := some (.new "readString: missing null terminator")
        offset := b.data.length }) := by
  have hs := scanLoop_eq hd (b.data.length - b.offset) b.offset (by omega) le_rfl
  simp only [pending] at hs hm
  simp [readString, he, u32_of_lt hd, hs, hm, Nat.not_le.mpr hlt, slice_of_le (Nat.le_of_lt hlt)]

theorem readString_at_end {b : Message} (he : b.err = none) (hd : b.data.length < 2 ^ 32)
    (ho : b.offset = b.data.length) :
    b.readString = some ([], { b with lastReadStringStartOffset := b.offset }) := by
  simp [readString, he, u32_of_lt hd, ho]

theorem readString_of_err {b : Message} (h : b.err.isSome) : b.readString = some ([], b) := by
  simp [readString, h]

theorem readUint32_of_err {b : Message} (h : b.err.isSome) : b.readUint32 = some (0, b) := by
  simp [readUint32, h]

theorem readUint32_ok {b : Message} (he : b.err = none) (hd : b.data.length < 2 ^ 32)
    (ho : b.offset + 4 ≤ b.data.length) :
    b.readUint32 = (BigEndian.uint32 (b.data.drop b.offset)).map
      fun v => (v, { b with offset := b.offset + 4 }) := by
  have hs : slice b.data b.offset (b.offset + 4) = some ((b.data.drop b.offset).take 4) := by
    rw [slice_of_le (by omega) ho, List.drop_take, Nat.add_sub_cancel_left]
  have hu : BigEndian.uint32 ((b.data.drop b.offset).take 4) =
      BigEndian.uint32 (b.data.drop b.offset) := by
    conv_rhs => rw [← List.take_append_drop 4 (b.data.drop b.offset)]
    exact (BigEndian.uint32_append _ (by simp; omega)).symm
  simp [readUint32, he, u32_of_lt hd, u32_of_lt (show b.offset + 4 < 2 ^ 32 by omega), hs, hu,
    Nat.not_lt.mpr ho]
  cases BigEndian.uint32 (b.data.drop b.offset) <;> rfl

theorem readUint32_short {b : Message} (he : b.err = none) (hd : b.data.length < 2 ^ 32)
    (ho : b.data.length < b.offset + 4) (ho' : b.offset + 4 < 2 ^ 32) :
    b.readUint32 = some (0, { b with err := some (.wrap "readUint32: " .unexpectedEOF) }) := by
  simp [readUint32, he, u32_of_lt hd, u32_of_lt ho', ho]

end Message

/-- The two reads a parser makes on a `message`. -/
inductive Read where
  | uint32
  | string
  deriving DecidableEq, Repr

def Read.run : Read → Message → Option ((Nat ⊕ List UInt8) × Message)
  | .uint32, b => b.readUint32.map fun (v, b) => (.inl v, b)
  | .string, b => b.readString.map fun (s, b) => (.inr s, b)

def Read.zero : Read → Nat ⊕ List UInt8
  | .uint32 => .inl 0
  | .string => .inr []

def ReadStep (b b' : Message) : Prop := ∃ (r : Read) (v : Nat ⊕ List UInt8), r.run b = some (v, b')

abbrev Reachable (data : List UInt8) := Relation.ReflTransGen ReadStep (newMessageFromBytes data)

open Message in
theorem Read.run_inside {b : Message} (hd : b.data.length < 2 ^ 32 - 4)
    (ho : b.offset ≤ b.data.length) (r : Read) :
    ∃ v b', r.run b = some (v, b') ∧ b'.data = b.data ∧ b.offset ≤ b'.offset ∧
      b'.offset ≤ b.data.length ∧ (b.err.isSome → b' = b ∧ v = r.zero) := by
  cases he : b.err with
  | some e =>
    have hs : b.err.isSome := by simp [he]
    cases r
    · exact ⟨.inl 0, b, by simp [Read.run, readUint32_of_err hs], rfl, le_rfl, ho,
        fun _ => ⟨rfl, rfl⟩⟩
    · exact ⟨.inr [], b, by simp [Read.run, readString_of_err hs], rfl, le_rfl, ho,
        fun _ => ⟨rfl, rfl⟩⟩
  | none =>
    cases r with
    | uint32 =>
      by_cases h4 : b.offset + 4 ≤ b.data.length
      · obtain ⟨v, hv⟩ := Option.isSome_iff_exists.mp
          (BigEndian.uint32_isSome (b := b.data.drop b.offset) (by simp; omega))
        exact ⟨.inl v, { b with offset := b.offset + 4 },
          by simp [Read.run, readUint32_ok he (by omega) h4, hv], rfl, by simp, h4, by simp⟩
      · exact ⟨.inl 0, { b with err := some (.wrap "readUint32: " .unexpectedEOF) },
          by simp [Read.run, readUint32_short he (by omega) (by omega) (by omega)],
          rfl, le_rfl, ho, by simp [he]⟩
    | string =>
      rcases Nat.lt_or_ge b.offset b.data.length with hlt | hge
      · rcases Nat.lt_or_ge (b.offset + b.pending.length) b.data.length with hf | hm
        · exact ⟨.inr b.pending, { b with
              lastReadStringStartOffset := b.offset
              offset := b.offset + b.pending.length + 1 },
            by simp [Read.run, readString_found he (by omega) hf], rfl,
            by simp; omega, by simp; omega, by simp [he]⟩
        · have hm' : b.offset + b.pending.length = b.data.length := by
            have : b.offset + b.pending.length ≤ b.data.length :=
              offset_add_takeWhile_notNul_le _ _ hlt.le
            omega
          exact ⟨.inr (b.data.drop b.offset), { b with
              lastReadStringStartOffset := b.offset
              err := some (.new "readString: missing null terminator")
              offset := b.data.length },
            by simp [Read.run, readString_missing he (by omega) hlt hm'], rfl,
            by simp; omega, by simp, by simp [he]⟩
      · exact ⟨.inr [], { b with lastReadStringStartOffset := b.offset },
          by simp [Read.run, readString_at_end he (by omega) (by omega)], rfl,
          le_rfl, ho, by simp⟩

theorem Reachable.inside {data : List UInt8} (hd : data.length < 2 ^ 32 - 4) {b : Message}
    (hb : Reachable data b) : b.data = data ∧ b.offset ≤ data.length := by
  induction hb with
  | refl => simp [newMessageFromBytes]
  | tail _ hstep ih =>
    obtain ⟨r, v, hr⟩ := hstep
    obtain ⟨v', b', hr', hdata, -, hle, -⟩ := Read.run_inside (by rw [ih.1]; exact hd)
      (by rw [ih.1]; exact ih.2) r
    rw [hr] at hr'
    cases hr'
    exact ⟨hdata.trans ih.1, ih.1 ▸ hle⟩

/-- A read `r` from cursor `b` over `data` that stays inside the buffer: the
offset is inside, neither `offset + 4` nor a `ReadString`'s `end + 1` wraps, the
read does not panic and does not move the offset back, and after an error it
returns the zero value and leaves the cursor as it was. -/
structure SafeRead (data : List UInt8) (b : Message) (r : Read) : Prop where
  offset_le : b.offset ≤ data.length
  offset_add_four : b.offset + 4 < 2 ^ 32
  end_add_one : ∀ e, Message.scanLoop b.data (u32 b.data.length)
    (u32 b.data.length - b.offset) b.offset = some e → e + 1 < 2 ^ 32
  run : ∃ v b', r.run b = some (v, b') ∧ b.offset ≤ b'.offset ∧
    (b.err.isSome → b'.err.isSome ∧ v = r.zero ∧ b'.offset = b.offset ∧
      b'.lastReadStringStartOffset = b.lastReadStringStartOffset)

/-- Whatever reads a parser makes from a fresh cursor over a buffer that leaves
room for `offset + 4`, every read is safe. -/
theorem reachable_read_safe {data : List UInt8} (hd : data.length < 2 ^ 32 - 4) {b : Message}
    (hb : Reachable data b) (r : Read) : SafeRead data b r := by
  obtain ⟨hdata, ho⟩ := hb.inside hd
  subst hdata
  refine ⟨ho, by omega, ?_, ?_⟩
  · intro e he
    rw [u32_of_lt (by omega), Message.scanLoop_eq (by omega) _ _ ho le_rfl] at he
    have := offset_add_takeWhile_notNul_le b.data b.offset ho
    simp only [Option.some.injEq] at he
    omega
  · obtain ⟨v, b', hr, -, hle, -, herr⟩ := Read.run_inside hd ho r
    refine ⟨v, b', hr, hle, fun hs => ?_⟩
    obtain ⟨rfl, rfl⟩ := herr hs
    exact ⟨hs, rfl, rfl, rfl⟩

theorem reachable_read_safe_of_missing_nul : ([0x61] : List UInt8).length < 2 ^ 32 - 4 ∧
    Reachable [0x61] ⟨[0x61], 1, some (.new "readString: missing null terminator"), 0⟩ ∧
    SafeRead [0x61] ⟨[0x61], 1, some (.new "readString: missing null terminator"), 0⟩ .uint32 :=
  have h : Reachable [0x61] ⟨[0x61], 1, some (.new "readString: missing null terminator"), 0⟩ :=
    .single ⟨.string, .inr [0x61], rfl⟩
  ⟨by decide, h, reachable_read_safe (by decide) h .uint32⟩

end L4Postgres.Bounded
