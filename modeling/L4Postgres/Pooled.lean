import L4Postgres.Conn
import L4Postgres.Message
import L4Postgres.Startup

/-! The pooled `MatchPostgres.Match` of src/modules/l4postgres/matcher.go, whose `message`
has no error field and no bounds checks, and whose header buffer comes from `headerPool`. -/

namespace L4Postgres.Pooled

structure Message where
  data : List UInt8
  offset : Nat
  deriving DecidableEq, Repr

namespace Message

def readUint32 (b : Message) : Option (Nat × Message) := do
  let r ← BigEndian.uint32 (← slice b.data b.offset (u32 (b.offset + 4)))
  pure (r, { b with offset := u32 (b.offset + 4) })

/-- `for ; end != maximum && b.data[end] != 0; end++ {}` from `end`. It makes at
most `maximum - end + 1` tests, the fuel `readString` gives it. -/
def scanLoop (data : List UInt8) (maximum : Nat) : Nat → Nat → Option Nat
  | 0, e => some e
  | fuel + 1, e =>
    if e ≠ maximum then do
      if (← index data e) ≠ 0 then scanLoop data maximum fuel (u32 (e + 1)) else pure e
    else pure e

def readString (b : Message) : Option (List UInt8 × Message) := do
  let maximum := u32 b.data.length
  let e ← scanLoop b.data maximum (maximum - b.offset + 1) b.offset
  let r ← slice b.data b.offset e
  pure (r, { b with offset := u32 (e + 1) })

def pending (b : Message) : List UInt8 := (b.data.drop b.offset).takeWhile notNul

def afterString (b : Message) : Message := ⟨b.data, b.offset + b.pending.length + 1⟩

@[simp] theorem afterString_data (b : Message) : b.afterString.data = b.data := rfl

@[simp] theorem afterString_offset (b : Message) :
    b.afterString.offset = b.offset + b.pending.length + 1 := rfl

theorem scanLoop_eq_bounded {data : List UInt8} {maximum : Nat} (hm : maximum < 2 ^ 32) :
    ∀ fuel e, e ≤ maximum →
      scanLoop data maximum fuel e = Bounded.Message.scanLoop data maximum fuel e
  | 0, _, _ => rfl
  | fuel + 1, e, he => by
    rcases Nat.lt_or_eq_of_le he with hlt | rfl
    · simp only [scanLoop, Bounded.Message.scanLoop, Nat.ne_of_lt hlt, hlt,
        u32_of_lt (show e + 1 < 2 ^ 32 by omega), scanLoop_eq_bounded hm fuel (e + 1) hlt,
        ne_eq, not_false_eq_true, if_true]
    · simp [scanLoop, Bounded.Message.scanLoop]

theorem readString_eq {b : Message} (hd : b.data.length < 2 ^ 32 - 1)
    (ho : b.offset ≤ b.data.length) : b.readString = some (b.pending, b.afterString) := by
  have hl : b.offset + b.pending.length ≤ b.data.length := offset_add_takeWhile_notNul_le _ _ ho
  have hs : scanLoop b.data b.data.length (b.data.length - b.offset + 1) b.offset =
      some (b.offset + b.pending.length) := by
    rw [scanLoop_eq_bounded (by omega) _ _ ho]
    exact Bounded.Message.scanLoop_eq (by omega) _ _ ho (by omega)
  have hsl : slice b.data b.offset (b.offset + b.pending.length) = some b.pending := by
    rw [slice_of_le (by omega) hl, List.drop_take, Nat.add_sub_cancel_left]
    exact congrArg some (List.prefix_iff_eq_take.mp (List.takeWhile_prefix _)).symm
  simp [readString, u32_of_lt (show b.data.length < 2 ^ 32 by omega), hs, hsl,
    u32_of_lt (show b.offset + b.pending.length + 1 < 2 ^ 32 by omega), afterString]

theorem readString_past_end {b : Message} (hd : b.data.length < 2 ^ 32)
    (ho : b.data.length < b.offset) : b.readString = none := by
  simp [readString, scanLoop, u32_of_lt hd, Nat.sub_eq_zero_of_le ho.le, Nat.ne_of_gt ho, index,
    List.getElem?_eq_none ho.le]

theorem readString_some {b b' : Message} {k : List UInt8} (hd : b.data.length < 2 ^ 32 - 1)
    (h : b.readString = some (k, b')) :
    b.offset ≤ b.data.length ∧ k = b.pending ∧ b' = b.afterString := by
  have ho : b.offset ≤ b.data.length := by
    by_contra hc
    rw [readString_past_end (by omega) (Nat.lt_of_not_le hc)] at h
    cases h
  rw [readString_eq hd ho] at h
  cases h
  exact ⟨ho, rfl, rfl⟩

theorem readUint32_start {d : List UInt8} (h : 4 ≤ d.length) :
    (⟨d, 0⟩ : Message).readUint32 = (BigEndian.uint32 d).map fun v => (v, ⟨d, 4⟩) := by
  have hu : BigEndian.uint32 (d.take 4) = BigEndian.uint32 d := by
    conv_rhs => rw [← List.take_append_drop 4 d]
    exact (BigEndian.uint32_append _ (by simp; omega)).symm
  simp [readUint32, u32, slice_of_le (Nat.zero_le 4) h, hu]
  cases BigEndian.uint32 d <;> rfl

theorem readUint32_start_short {d : List UInt8} (h : d.length < 4) :
    (⟨d, 0⟩ : Message).readUint32 = none := by
  simp [readUint32, u32, slice_eq_none h]

end Message

/-- `startup.Parameters`, a `map[string]string`, as its list of entries. -/
abbrev Params := List (List UInt8 × List UInt8)

def Params.insert (m : Params) (k v : List UInt8) : Params :=
  (k, v) :: m.filter (·.1 ≠ k)

def paramLoop : Nat → Message → Params → Option Params
  | 0, _, _ => none
  | fuel + 1, b, params => do
    let (k, b) ← b.readString
    if k = [] then return params
    let (v, b) ← b.readString
    paramLoop fuel b (params.insert k v)

theorem insert_ne_nil (m : Params) (k v : List UInt8) : m.insert k v ≠ [] := List.cons_ne_nil _ _

def Params.get (m : Params) (k : List UInt8) : Option (List UInt8) :=
  (m.find? fun p => p.1 = k).map Prod.snd

def Params.insertAll (m pairs : Params) : Params :=
  pairs.foldl (fun m p => m.insert p.1 p.2) m

theorem get_insert (m : Params) (k v k' : List UInt8) :
    (m.insert k v).get k' = if k = k' then some v else m.get k' := by
  by_cases h : k = k'
  · simp [Params.get, Params.insert, h]
  · simp only [Params.get, Params.insert, List.find?_cons, h, decide_False, if_neg h,
      List.find?_filter]
    congr 2
    funext p
    by_cases hp : p.1 = k' <;> simp [hp, Ne.symm h]

theorem insertAll_cons (m : Params) (p : List UInt8 × List UInt8) (pairs : Params) :
    m.insertAll (p :: pairs) = (m.insert p.1 p.2).insertAll pairs := rfl

theorem insertAll_eq_nil_iff (m pairs : Params) : m.insertAll pairs = [] ↔ m = [] ∧ pairs = [] := by
  induction pairs generalizing m with
  | nil => simp [Params.insertAll]
  | cons p ps ih => simp [insertAll_cons, ih, insert_ne_nil]

theorem get_insertAll (m pairs : Params) (k : List UInt8) :
    (m.insertAll pairs).get k =
      ((pairs.reverse.find? fun p => p.1 = k).map Prod.snd).or (m.get k) := by
  induction pairs generalizing m with
  | nil => rfl
  | cons p ps ih =>
    rw [insertAll_cons, ih, get_insert, List.reverse_cons, List.find?_append]
    cases ps.reverse.find? fun p => p.1 = k
    · by_cases h : p.1 = k <;> simp [h]
    · rfl

theorem paramLoop_succ {b : Message} (hd : b.data.length < 2 ^ 32 - 1)
    (ho : b.offset ≤ b.data.length) (m : Params) (fuel : Nat) :
    paramLoop (fuel + 1) b m =
      if b.pending = [] then some m
      else if b.data.length ≤ b.offset + b.pending.length then none
      else paramLoop fuel b.afterString.afterString (m.insert b.pending b.afterString.pending) := by
  have hl : b.offset + b.pending.length ≤ b.data.length := offset_add_takeWhile_notNul_le _ _ ho
  have hd32 : b.data.length < 2 ^ 32 := by omega
  by_cases h0 : b.pending = []
  · simp [paramLoop, Message.readString_eq hd ho, h0]
  by_cases hend : b.data.length ≤ b.offset + b.pending.length
  · simp [paramLoop, Message.readString_eq hd ho, h0, hend,
      Message.readString_past_end (b := b.afterString) hd32 (by simp; omega)]
  · simp [paramLoop, Message.readString_eq hd ho, h0, hend,
      Message.readString_eq (b := b.afterString) (by exact hd) (by simp; omega)]

/-- What the loop reads to its end: well-formed pairs, then the end of the buffer
or a NUL where the next key would start. -/
def ClosedParams (r : List UInt8) : Prop :=
  ∃ params t, (∀ p ∈ params, PairOk p) ∧ t.takeWhile notNul = [] ∧ r = encodePairs params ++ t

theorem not_closedParams_of_nulFree {r : List UInt8} (hne : r ≠ []) (h0 : 0 ∉ r) :
    ¬ ClosedParams r := by
  rintro ⟨ps, t, -, ht, rfl⟩
  cases ps with
  | nil =>
    rcases takeWhile_notNul_eq_nil_iff.mp ht with rfl | ⟨t', rfl⟩
    · exact hne rfl
    · exact h0 (by simp)
  | cons p ps =>
    obtain ⟨k, v⟩ := p
    exact h0 (by simp)

theorem drop_add_of_drop_eq {d k rest : List UInt8} {o : Nat} (h : d.drop o = k ++ 0 :: rest) :
    d.drop (o + k.length + 1) = rest := by
  rw [Nat.add_assoc, ← List.drop_drop, h]
  simp

theorem paramLoop_closed {b : Message} (hd : b.data.length < 2 ^ 32 - 1) {params : Params}
    (hok : ∀ p ∈ params, PairOk p) {t : List UInt8} (ht : t.takeWhile notNul = [])
    (ho : b.offset ≤ b.data.length) (hb : b.data.drop b.offset = encodePairs params ++ t)
    (m : Params) (fuel : Nat) (hf : params.length < fuel) :
    paramLoop fuel b m = some (m.insertAll params) := by
  obtain ⟨fuel, rfl⟩ : ∃ f, fuel = f + 1 := ⟨fuel - 1, by omega⟩
  induction params generalizing b m fuel with
  | nil =>
    have hp : b.pending = [] := by simpa [Message.pending, hb] using ht
    rw [paramLoop_succ hd ho, if_pos hp]
    rfl
  | cons p ps ih =>
    obtain ⟨k, v⟩ := p
    obtain ⟨hk, h0k, h0v⟩ := hok (k, v) (List.mem_cons_self _ _)
    obtain ⟨fuel, rfl⟩ : ∃ f, fuel = f + 1 := ⟨fuel - 1, by simp only [List.length_cons] at hf; omega⟩
    simp only [encodePairs_cons, List.append_assoc, List.cons_append] at hb
    have hlen := congrArg List.length hb
    simp only [List.length_drop, List.length_append, List.length_cons] at hlen
    have hpk : b.pending = k := by
      simp only [Message.pending, hb, takeWhile_notNul_of_nulFree h0k]
    have hb1 : b.data.drop b.afterString.offset = v ++ 0 :: (encodePairs ps ++ t) := by
      simpa [hpk] using drop_add_of_drop_eq hb
    have hpv : b.afterString.pending = v := by
      simp only [Message.pending, Message.afterString_data, hb1, takeWhile_notNul_of_nulFree h0v]
    have hb2 := drop_add_of_drop_eq hb1
    rw [← hpv] at hb2
    rw [paramLoop_succ hd ho, if_neg (by rw [hpk]; exact hk), if_neg (by rw [hpk]; omega),
      hpk, hpv]
    exact ih (b := b.afterString.afterString) (by exact hd)
      (fun q hq => hok q (List.mem_cons_of_mem _ hq)) (by simp [hpk, hpv]; omega)
      (by simpa using hb2) (m.insert k v) fuel (by simp only [List.length_cons] at hf; omega)

theorem paramLoop_some {b : Message} (hd : b.data.length < 2 ^ 32 - 1)
    (ho : b.offset ≤ b.data.length + 1) {m m' : Params} {fuel : Nat}
    (h : paramLoop fuel b m = some m') :
    b.offset ≤ b.data.length ∧ ∃ params t, (∀ p ∈ params, PairOk p) ∧ t.takeWhile notNul = [] ∧
      b.data.drop b.offset = encodePairs params ++ t ∧ (m' = [] ↔ m = [] ∧ params = []) := by
  induction fuel generalizing b m with
  | zero => simp [paramLoop] at h
  | succ fuel ih =>
    have ho' : b.offset ≤ b.data.length := by
      by_contra hc
      simp [paramLoop, Message.readString_past_end (by omega) (Nat.lt_of_not_le hc)] at h
    have hl : b.offset + b.pending.length ≤ b.data.length := offset_add_takeWhile_notNul_le _ _ ho'
    refine ⟨ho', ?_⟩
    rw [paramLoop_succ hd ho'] at h
    split_ifs at h with h0 hend
    · cases h
      exact ⟨[], b.data.drop b.offset, by simp, h0, by simp, by simp⟩
    · have ho1 : b.afterString.offset ≤ b.data.length := by simp; omega
      have hl1 : b.afterString.offset + b.afterString.pending.length ≤ b.afterString.data.length :=
        offset_add_takeWhile_notNul_le _ _ ho1
      have hoff : b.afterString.afterString.offset ≤ b.afterString.afterString.data.length + 1 := by
        simp only [Message.afterString_data, Message.afterString_offset] at hl1 ⊢; omega
      obtain ⟨ho2, ps, t, hok, ht, hb, hiff⟩ := ih (by exact hd) hoff h
      simp only [Message.afterString_data, Message.afterString_offset] at ho2 hb hl1
      have hk : b.data.drop b.offset = b.pending ++ 0 :: b.data.drop b.afterString.offset :=
        drop_eq_takeWhile_notNul_append _ _ (show b.offset + b.pending.length < _ by omega)
      have hf1 : b.afterString.offset + b.afterString.pending.length < b.afterString.data.length := by
        simp only [Message.afterString_data, Message.afterString_offset]; omega
      have hv : b.afterString.data.drop b.afterString.offset = b.afterString.pending ++
          0 :: b.afterString.data.drop b.afterString.afterString.offset :=
        drop_eq_takeWhile_notNul_append _ _ hf1
      simp only [Message.afterString_data, Message.afterString_offset] at hk hv
      refine ⟨(b.pending, b.afterString.pending) :: ps, t, ?_, ht, ?_, ?_⟩
      · rintro q (_ | ⟨_, hq⟩)
        · exact ⟨h0, zero_not_mem_takeWhile_notNul _, zero_not_mem_takeWhile_notNul _⟩
        · exact hok q hq
      · rw [hk, hv, hb]; simp
      · simpa using fun h => insert_ne_nil _ _ _ (hiff.mp h).1

theorem paramLoop_of_not_closed {b : Message} (hd : b.data.length < 2 ^ 32 - 1)
    (ho : b.offset ≤ b.data.length + 1) (hr : ¬ ClosedParams (b.data.drop b.offset)) (m : Params)
    (fuel : Nat) : paramLoop fuel b m = none := by
  cases h : paramLoop fuel b m with
  | none => rfl
  | some m' =>
    obtain ⟨-, params, t, hok, ht, hb, -⟩ := paramLoop_some hd ho h
    exact absurd ⟨params, t, hok, ht, hb⟩ hr

/-- The parameter loop as the code runs it, with no bound on its passes: it
breaks out with the map at an empty key, or a `ReadString` panics. -/
inductive LoopRun : Message → Params → Option Params → Prop
  | stop {b b' : Message} {m : Params} :
      b.readString = some ([], b') → LoopRun b m (some m)
  | keyPanics {b : Message} {m : Params} : b.readString = none → LoopRun b m none
  | valuePanics {b b1 : Message} {m : Params} {k : List UInt8} :
      b.readString = some (k, b1) → k ≠ [] → b1.readString = none → LoopRun b m none
  | pair {b b1 b2 : Message} {m : Params} {k v : List UInt8} {r : Option Params} :
      b.readString = some (k, b1) → k ≠ [] → b1.readString = some (v, b2) →
      LoopRun b2 (m.insert k v) r → LoopRun b m r

/-- Given a pass for every byte left, the bounded loop is the code's loop: it
returns what the code breaks out with, and `none` exactly when the code panics,
never for want of passes. -/
theorem paramLoop_eq_iff_loopRun {b : Message} (hd : b.data.length < 2 ^ 32 - 1)
    (ho : b.offset ≤ b.data.length + 1) {fuel : Nat} (hf : b.data.length + 2 ≤ b.offset + fuel)
    (m : Params) (r : Option Params) : paramLoop fuel b m = r ↔ LoopRun b m r := by
  constructor
  · intro h
    induction fuel generalizing b m with
    | zero => omega
    | succ fuel ih =>
      by_cases hend : b.data.length < b.offset
      · rw [paramLoop, Message.readString_past_end (by omega) hend] at h
        exact h ▸ .keyPanics (Message.readString_past_end (by omega) hend)
      have ho' : b.offset ≤ b.data.length := by omega
      have hl : b.offset + b.pending.length ≤ b.data.length :=
        offset_add_takeWhile_notNul_le _ _ ho'
      have hs := Message.readString_eq hd ho'
      rw [paramLoop_succ hd ho'] at h
      split_ifs at h with h0 hv
      · exact h ▸ .stop (h0 ▸ hs)
      · exact h ▸ .valuePanics hs h0 (Message.readString_past_end (by simp; omega) (by simp; omega))
      · have hl1 : b.afterString.offset + b.afterString.pending.length ≤ b.afterString.data.length :=
          offset_add_takeWhile_notNul_le _ _ (by simp; omega)
        have hoff : b.afterString.afterString.offset ≤ b.afterString.afterString.data.length + 1 := by
          simp only [Message.afterString_data, Message.afterString_offset] at hl1 ⊢; omega
        exact .pair hs h0 (Message.readString_eq (by exact hd) (by simp; omega))
          (ih (by exact hd) hoff (by simp; omega) _ h)
  · intro h
    obtain ⟨fuel, rfl⟩ : ∃ f, fuel = f + 1 := ⟨fuel - 1, by omega⟩
    induction h generalizing fuel with
    | stop hs => simp [paramLoop, hs]
    | keyPanics hs => simp [paramLoop, hs]
    | valuePanics hs hk hs1 => simp [paramLoop, hs, hk, hs1]
    | @pair b b1 b2 m k v r hs hk hs1 _ ih =>
      obtain ⟨-, rfl, rfl⟩ := Message.readString_some hd hs
      obtain ⟨ho1, rfl, rfl⟩ := Message.readString_some (by exact hd) hs1
      have hl1 : b.afterString.offset + b.afterString.pending.length ≤
          b.afterString.data.length := offset_add_takeWhile_notNul_le _ _ ho1
      simp only [Message.afterString_data, Message.afterString_offset] at ho1 hl1
      obtain ⟨fuel, rfl⟩ : ∃ f, fuel = f + 1 := ⟨fuel - 1, by omega⟩
      simp only [paramLoop, hs, hs1, hk, Option.bind_eq_bind, Option.some_bind, if_false]
      exact ih (by exact hd) (by simp; omega) _ (by simp; omega)

/-- From offset 4 the loop always ends, in exactly one way: it breaks out with a
map or a `ReadString` panics. It never runs forever, and the loop given one pass
per payload byte returns exactly that outcome. -/
theorem loopRun_unique {d : List UInt8} (hd : d.length < 2 ^ 32 - 1) (h4 : 4 ≤ d.length) :
    (∃! r, LoopRun ⟨d, 4⟩ [] r) ∧ ∀ r, paramLoop d.length ⟨d, 4⟩ [] = r ↔ LoopRun ⟨d, 4⟩ [] r :=
  have hrun := paramLoop_eq_iff_loopRun (b := ⟨d, 4⟩) hd (by simp; omega)
    (show d.length + 2 ≤ 4 + d.length by omega) []
  ⟨⟨_, (hrun _).mp rfl, fun r h => ((hrun r).mpr h).symm⟩, hrun⟩

theorem loopRun_unique_of_open_key :
    (∃! r, LoopRun ⟨[0, 3, 0, 0, 0x61], 4⟩ [] r) ∧ LoopRun ⟨[0, 3, 0, 0, 0x61], 4⟩ [] none :=
  have h := loopRun_unique (d := [0, 3, 0, 0, 0x61]) (by decide) (by decide)
  ⟨h.1, (h.2 none).mp rfl⟩

/-- `Match` from `b := &message{data: data}` on. The loop is given one pass per
payload byte; every pass that does not end it moves at least two bytes on. -/
def parsePayload (data : List UInt8) : Option (Bool × Option Error) := do
  let (code, b) ← (⟨data, 0⟩ : Message).readUint32
  if code = sslRequestCode then return (true, none)
  if code >>> 16 < 3 then return (false, some (.new "pg protocol < 3.0 is not supported"))
  let parameters ← paramLoop data.length b []
  return (decide (0 < parameters.length), none)

theorem parsePayload_short {d : List UInt8} (h : d.length < 4) : parsePayload d = none := by
  simp [parsePayload, Message.readUint32_start_short h]

theorem parsePayload_version {v : Nat} (hv : v < 2 ^ 32) (r : List UInt8) :
    parsePayload (BigEndian.putUint32 v ++ r) =
      if v = sslRequestCode then some (true, none)
      else if v >>> 16 < 3 then some (false, some (.new "pg protocol < 3.0 is not supported"))
      else (paramLoop (BigEndian.putUint32 v ++ r).length ⟨BigEndian.putUint32 v ++ r, 4⟩ []).map
        fun m => (decide (0 < m.length), none) := by
  have hu := BigEndian.uint32_putUint32_append hv r
  simp only [parsePayload, Message.readUint32_start (by simp : 4 ≤ (BigEndian.putUint32 v ++ r).length),
    hu, Option.map_some', Option.bind_eq_bind, Option.some_bind, Option.pure_def]
  split_ifs
  · rfl
  · rfl
  · cases paramLoop _ _ [] <;> rfl

theorem parsePayload_closed {v : Nat} (hv : v < 2 ^ 32) (hssl : v ≠ sslRequestCode)
    (hver : 3 ≤ v >>> 16) {params : Params} (hok : ∀ p ∈ params, PairOk p) {t : List UInt8}
    (ht : t.takeWhile notNul = [])
    (hd : (BigEndian.putUint32 v ++ (encodePairs params ++ t)).length < 2 ^ 32 - 1) :
    parsePayload (BigEndian.putUint32 v ++ (encodePairs params ++ t)) =
      some (decide (params ≠ []), none) := by
  have hf : params.length < (BigEndian.putUint32 v ++ (encodePairs params ++ t)).length := by
    have := length_le_encodePairs params
    simp only [List.length_append, BigEndian.putUint32_length]; omega
  rw [parsePayload_version hv, if_neg hssl, if_neg (by omega), paramLoop_closed (b := ⟨_, 4⟩) hd
    hok ht (by simp) (List.drop_left' (BigEndian.putUint32_length v)) [] _ hf]
  simp [List.length_pos, insertAll_eq_nil_iff]

theorem parsePayload_not_closed {v : Nat} (hv : v < 2 ^ 32) (hssl : v ≠ sslRequestCode)
    (hver : 3 ≤ v >>> 16) {r : List UInt8} (hr : ¬ ClosedParams r)
    (hd : (BigEndian.putUint32 v ++ r).length < 2 ^ 32 - 1) :
    parsePayload (BigEndian.putUint32 v ++ r) = none := by
  rw [parsePayload_version hv, if_neg hssl, if_neg (by omega), paramLoop_of_not_closed hd
    (by simp; omega) (by rwa [List.drop_left' (BigEndian.putUint32_length v)])]
  rfl

theorem parsePayload_error {d : List UInt8} {x : Bool} {e : Error}
    (h : parsePayload d = some (x, some e)) :
    x = false ∧ (∃ v, BigEndian.uint32 d = some v ∧ v >>> 16 < 3) ∧
      e = .new "pg protocol < 3.0 is not supported" := by
  rcases Nat.lt_or_ge d.length 4 with h4 | h4
  · rw [parsePayload_short h4] at h; cases h
  obtain ⟨v, hv⟩ := Option.isSome_iff_exists.mp (BigEndian.uint32_isSome h4)
  rw [BigEndian.eq_putUint32_append h4 hv, parsePayload_version (BigEndian.uint32_lt hv)] at h
  split_ifs at h with hssl hver
  · cases h
  · cases h; exact ⟨rfl, ⟨v, hv, hver⟩, rfl⟩
  · obtain ⟨m, -, hm⟩ := Option.map_eq_some'.mp h
    cases hm

/-- `headerPool.Get()`: the most recently put buffer, or a new one. -/
def headerPoolGet : List (List UInt8) → List UInt8 × List (List UInt8)
  | [] => (List.replicate initMessageSizeLength 0, [])
  | header :: pool => (header, pool)

def readPayload (cx : Conn) (messageLength : Nat) : Option ((Bool × Option Error) × Conn) :=
  let ((data, _, err), cx) := cx.readFull (List.replicate messageLength 0)
  match err with
  | some err => some ((false, some err), cx)
  | none => (parsePayload data).map fun r => (r, cx)

/-- `MatchPostgres.Match`, with the pool of free header buffers before and
after it. A panic before `headerPool.Put` loses the buffer. -/
def Match (pool : List (List UInt8)) (cx : Conn) :
    Option ((Bool × Option Error) × Conn) × List (List UInt8) :=
  let (header, pool) := headerPoolGet pool
  let ((header, _, err), cx) := cx.readFull header
  match err with
  | some err => (some ((false, some err), cx), header :: pool)
  | none =>
    match BigEndian.uint32 header with
    | none => (none, pool)
    | some h => (readPayload cx (sub32 h initMessageSizeLength), header :: pool)

theorem readPayload_of_lt {c : Conn} {n : Nat} (h : c.bytes.length < n) :
    readPayload c n = some ((false, some (shortReadError c.bytes.length c.close)), ⟨[], c.close⟩) := by
  simp [readPayload, readFull_of_lt (show c.bytes.length < (List.replicate n 0).length by simpa)]

theorem readPayload_of_le {c : Conn} {n : Nat} (h : n ≤ c.bytes.length) :
    ∃ c', c'.bytes = c.bytes.drop n ∧ c'.close = c.close ∧
      readPayload c n = (parsePayload (c.bytes.take n)).map fun r => (r, c') := by
  obtain ⟨c', hr, h2, h3⟩ := readFull_eq_of_le (c := c) (b := List.replicate n 0) (by simpa)
  rw [List.length_replicate] at hr h2
  exact ⟨c', h2, h3, by rw [readPayload, hr]⟩

/-- What `headerPool` may hand out: buffers the size of the length header. -/
def PoolOk (pool : List (List UInt8)) : Prop :=
  ∀ header ∈ pool, header.length = initMessageSizeLength

theorem poolOk_nil : PoolOk [] := fun _ h => nomatch h

theorem headerPoolGet_eq {pool : List (List UInt8)} (hp : PoolOk pool) :
    ∃ header pool', headerPoolGet pool = (header, pool') ∧
      header.length = initMessageSizeLength ∧ PoolOk pool' := by
  cases pool with
  | nil => exact ⟨_, _, rfl, by simp, poolOk_nil⟩
  | cons header pool =>
    exact ⟨header, pool, rfl, hp header (List.mem_cons_self _ _),
      fun h hh => hp h (List.mem_cons_of_mem _ hh)⟩

variable {pool : List (List UInt8)} {c : Conn}

theorem Match_short_header (hp : PoolOk pool) (h : c.bytes.length < initMessageSizeLength) :
    (Match pool c).1 =
      some ((false, some (shortReadError c.bytes.length c.close)), ⟨[], c.close⟩) := by
  obtain ⟨header, pool', hg, hl, -⟩ := headerPoolGet_eq hp
  simp [Match, hg, readFull_of_lt (show c.bytes.length < header.length by omega)]

theorem Match_of_header (hp : PoolOk pool) (h4 : initMessageSizeLength ≤ c.bytes.length)
    {h : Nat} (hh : BigEndian.uint32 (c.bytes.take 4) = some h) :
    (Match pool c).1 = readPayload (c.readFull (List.replicate initMessageSizeLength 0)).2
      (sub32 h initMessageSizeLength) := by
  obtain ⟨header, pool', hg, hl, -⟩ := headerPoolGet_eq hp
  have h1 := (readFull_of_le (c := c) (b := header) (by omega)).1
  rw [hl] at h1
  have hr : c.readFull header =
      ((c.bytes.take 4, 4, none), (c.readFull (List.replicate initMessageSizeLength 0)).2) :=
    Prod.ext h1 (readFull_snd_congr c (by simp [hl]))
  simp [Match, hg, hr, hh]

theorem Match_after_header (hp : PoolOk pool) (h4 : initMessageSizeLength ≤ c.bytes.length)
    {h : Nat} (hh : BigEndian.uint32 (c.bytes.take 4) = some h) :
    ∃ c1 : Conn, c1.bytes = c.bytes.drop 4 ∧ c1.close = c.close ∧
      (Match pool c).1 = readPayload c1 (sub32 h initMessageSizeLength) := by
  obtain ⟨-, h2, h3⟩ := readFull_of_le (c := c) (b := List.replicate initMessageSizeLength 0)
    (by simpa using h4)
  exact ⟨_, by simpa [initMessageSizeLength] using h2, h3, Match_of_header hp h4 hh⟩

theorem Match_frame (hp : PoolOk pool) {d rest : List UInt8} (hL : d.length + 4 < 2 ^ 32)
    (hb : c.bytes = BigEndian.putUint32 (d.length + 4) ++ d ++ rest) :
    ∃ c', c'.bytes = rest ∧ c'.close = c.close ∧
      (Match pool c).1 = (parsePayload d).map fun r => (r, c') := by
  rw [List.append_assoc] at hb
  obtain ⟨c1, h2, h3, hm⟩ := Match_after_header hp (c := c) (by simp [hb, initMessageSizeLength])
    (by rw [hb]; exact BigEndian.uint32_take_putUint32_append hL _)
  rw [hb, List.drop_left' (BigEndian.putUint32_length _)] at h2
  obtain ⟨c', h2', h3', hr⟩ := readPayload_of_le (c := c1) (n := d.length) (by simp [h2])
  refine ⟨c', by simp [h2', h2], h3'.trans h3, ?_⟩
  rw [hm, sub32_of_le (by simp [initMessageSizeLength]) hL,
    show d.length + 4 - initMessageSizeLength = d.length by simp [initMessageSizeLength], hr, h2,
    List.take_left]

end L4Postgres.Pooled
