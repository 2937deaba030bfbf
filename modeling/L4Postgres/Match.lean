import L4Postgres.Conn
import L4Postgres.Message
import L4Postgres.Startup

/-! The bounded `MatchPostgres.Match` of src/unnamed/part_000: read the length header,
check it, read the payload, and parse it with a `message` cursor, one pass of the
parameter loop at a time. -/

namespace L4Postgres.Bounded

inductive Step where
  | done (matched : Bool)
  | next (b : Message)
  deriving DecidableEq, Repr

/-- The rest of a pass of the parameter loop once the key's `ReadString` has
left the cursor at `b`: the terminator test, then the value's `ReadString`. -/
def afterKey (b : Message) : Option Step := do
  if b.err.isSome then return .done false
  let terminator ← if 0 < b.offset ∧ sub32 b.offset 1 = b.lastReadStringStartOffset then
      (· == 0) <$> index b.data (sub32 b.offset 1)
    else pure false
  if terminator then return .done (b.offset = u32 b.data.length)
  if b.err.isSome then return .done false
  if b.offset ≥ u32 b.data.length then return .done false
  let (_, b) ← b.readString
  if b.err.isSome then return .done false
  return .next b

/-- One pass of the `for` loop over the parameter list. -/
def paramStep (b : Message) : Option Step := do
  if b.err.isSome then return .done false
  if b.offset = u32 b.data.length then return .done false
  let (_, b) ← b.readString
  afterKey b

theorem paramStep_of_read {b b₁ : Message} {s : List UInt8} (he : b.err = none)
    (hne : b.offset ≠ u32 b.data.length) (h : b.readString = some (s, b₁)) :
    paramStep b = afterKey b₁ := by
  simp [paramStep, he, hne, h]

theorem afterKey_terminator {b : Message} (he : b.err = none) (hpos : 0 < b.offset)
    (hl : sub32 b.offset 1 = b.lastReadStringStartOffset)
    (h0 : index b.data (sub32 b.offset 1) = some 0) :
    afterKey b = some (.done (b.offset = u32 b.data.length)) := by
  rw [hl] at h0
  simp [afterKey, he, hpos, hl, h0]

theorem afterKey_of_err {b : Message} (he : b.err.isSome) : afterKey b = some (.done false) := by
  simp [afterKey, he]

theorem afterKey_end {b : Message} (he : b.err = none)
    (hl : sub32 b.offset 1 ≠ b.lastReadStringStartOffset) (hend : u32 b.data.length ≤ b.offset) :
    afterKey b = some (.done false) := by
  simp [afterKey, he, hl, hend]

theorem afterKey_value {b b₂ : Message} {s : List UInt8} (he : b.err = none)
    (hl : sub32 b.offset 1 ≠ b.lastReadStringStartOffset) (hlt : b.offset < u32 b.data.length)
    (h : b.readString = some (s, b₂)) :
    afterKey b = some (if b₂.err.isSome then .done false else .next b₂) := by
  simp [afterKey, he, hl, Nat.not_le.mpr hlt, h]
  split <;> simp_all

open Message in
/-- What one pass does from a live cursor inside the buffer: it returns whether
the unread bytes are a well-formed parameter list, or it reads one pair,
moving at least two bytes on and keeping what is left to decide. -/
theorem paramStep_spec {b : Message} (he : b.err = none) (ho : b.offset ≤ b.data.length)
    (hd : b.data.length < 2 ^ 32 - 4) :
    (∃ r, paramStep b = some (.done r) ∧ (r = true ↔ ParamList (b.data.drop b.offset))) ∨
    ∃ b', paramStep b = some (.next b') ∧ b'.data = b.data ∧ b'.err = none ∧
      b.offset + 2 ≤ b'.offset ∧ b'.offset ≤ b.data.length ∧
      (ParamList (b.data.drop b.offset) ↔ ParamList (b'.data.drop b'.offset)) ∧
      ∃ k v b₁, b.readString = some (k, b₁) ∧ b₁.readString = some (v, b') ∧
        b₁.offset < b.data.length := by
  have hu : u32 b.data.length = b.data.length := u32_of_lt (by omega)
  rcases Nat.lt_or_ge b.offset b.data.length with hlt | hge
  swap
  · have hend : b.offset = b.data.length := by omega
    exact .inl ⟨false, by simp [paramStep, he, hu, hend], by simp [hend, not_paramList_nil]⟩
  rcases Nat.lt_or_ge (b.offset + b.pending.length) b.data.length with hf | hm
  swap
  · have hm : b.offset + b.pending.length = b.data.length := by
      have : b.offset + b.pending.length ≤ b.data.length :=
        offset_add_takeWhile_notNul_le _ _ hlt.le
      omega
    refine .inl ⟨false, ?_, ?_⟩
    · rw [paramStep_of_read he (by omega) (readString_missing he (by omega) hlt hm),
        afterKey_of_err (by simp)]
    · simpa [drop_offset_of_missing hm] using
        not_paramList_of_nulFree (zero_not_mem_takeWhile_notNul _)
  -- the key ends at a NUL
  have hsplit :
      b.data.drop b.offset = b.pending ++ 0 :: b.data.drop (b.offset + b.pending.length + 1) :=
    drop_eq_takeWhile_notNul_append _ _ hf
  obtain ⟨b₁, hk, hd₁, he₁, ho₁, hl₁⟩ : ∃ b₁, b.readString = some (b.pending, b₁) ∧
      b₁.data = b.data ∧ b₁.err = none ∧ b₁.offset = b.offset + b.pending.length + 1 ∧
      b₁.lastReadStringStartOffset = b.offset :=
    ⟨_, readString_found he (by omega) hf, rfl, he, rfl, rfl⟩
  rw [paramStep_of_read he (by omega) hk]
  have hsub : sub32 b₁.offset 1 = b.offset + b.pending.length := by
    rw [ho₁, sub32_of_le (by omega) (by omega)]; rfl
  have hlen₁ : b₁.data.length = b.data.length := by rw [hd₁]
  have hu₁ : u32 b₁.data.length = b.data.length := by rw [hd₁, hu]
  by_cases hkey : b.pending = []
  · -- an empty key is the terminator
    have h0 : index b₁.data (sub32 b₁.offset 1) = some 0 := by
      rw [hsub, hd₁, hkey, index, List.length_nil, ← List.getElem?_drop, hsplit, hkey]; simp
    refine .inl ⟨_, afterKey_terminator he₁ (by omega) (by rw [hsub, hl₁, hkey]; rfl) h0, ?_⟩
    rw [hsplit, hkey, List.nil_append, paramList_zero_cons_iff, ← List.length_eq_zero, hu₁, ho₁]
    simp only [List.length_drop, hkey, List.length_nil, decide_eq_true_eq]
    omega
  have hklen : 0 < b.pending.length := List.length_pos.mpr hkey
  have hne : sub32 b₁.offset 1 ≠ b₁.lastReadStringStartOffset := by rw [hsub, hl₁]; omega
  rcases Nat.lt_or_ge b₁.offset b.data.length with hlt₁ | hge₁
  swap
  · -- the buffer ends right after the key
    refine .inl ⟨false, afterKey_end he₁ hne (by omega), ?_⟩
    rw [hsplit, show b.offset + b.pending.length + 1 = b.data.length by omega, List.drop_length]
    simpa using not_paramList_key_end hkey (zero_not_mem_takeWhile_notNul _)
  have hsplit' : b.data.drop b.offset = b.pending ++ 0 :: b₁.data.drop b₁.offset := by
    rw [hsplit, hd₁, ho₁]
  rcases Nat.lt_or_ge (b₁.offset + b₁.pending.length) b₁.data.length with hf₁ | hm₁
  swap
  · -- the value runs into the end
    have hm₁ : b₁.offset + b₁.pending.length = b₁.data.length := by
      have : b₁.offset + b₁.pending.length ≤ b₁.data.length :=
        offset_add_takeWhile_notNul_le _ _ (by omega)
      omega
    have hv := readString_missing he₁ (by omega) (by omega) hm₁
    refine .inl ⟨false, by rw [afterKey_value he₁ hne (by omega) hv]; rfl, ?_⟩
    rw [hsplit', drop_offset_of_missing hm₁]
    simpa using not_paramList_value_open hkey (zero_not_mem_takeWhile_notNul _)
      (zero_not_mem_takeWhile_notNul _)
  -- the value ends at a NUL: one pair read
  have hv := readString_found he₁ (by omega) hf₁
  refine .inr ⟨{ b₁ with
      lastReadStringStartOffset := b₁.offset
      offset := b₁.offset + b₁.pending.length + 1 },
    by rw [afterKey_value he₁ hne (by omega) hv]; simp [he₁], hd₁, he₁,
    show b.offset + 2 ≤ b₁.offset + b₁.pending.length + 1 by omega,
    show b₁.offset + b₁.pending.length + 1 ≤ b.data.length by omega, ?_,
    ⟨b.pending, b₁.pending, b₁, hk, hv, hlt₁⟩⟩
  have hsplit₁ : b₁.data.drop b₁.offset =
      b₁.pending ++ 0 :: b₁.data.drop (b₁.offset + b₁.pending.length + 1) :=
    drop_eq_takeWhile_notNul_append _ _ hf₁
  rw [hsplit', hsplit₁]
  exact paramList_pair_iff hkey (zero_not_mem_takeWhile_notNul _) (zero_not_mem_takeWhile_notNul _)

def paramLoop : Nat → Message → Option Bool
  | 0, _ => none
  | fuel + 1, b => do
    match ← paramStep b with
    | .done matched => pure matched
    | .next b => paramLoop fuel b

theorem paramLoop_spec : ∀ (fuel : Nat) {b : Message}, b.err = none →
    b.offset ≤ b.data.length → b.data.length < 2 ^ 32 - 4 → b.data.length - b.offset < fuel →
    ∃ r, paramLoop fuel b = some r ∧ (r = true ↔ ParamList (b.data.drop b.offset))
  | 0, _, _, _, _, hf => absurd hf (Nat.not_lt_zero _)
  | fuel + 1, b, he, ho, hd, hf => by
    rcases paramStep_spec he ho hd with ⟨r, hs, hr⟩ | ⟨b', hs, hd', he', h2, ho', hp, -⟩
    · exact ⟨r, by simp [paramLoop, hs], hr⟩
    · obtain ⟨r, hl, hr⟩ := paramLoop_spec fuel he' (hd' ▸ ho') (hd' ▸ hd) (by rw [hd']; omega)
      exact ⟨r, by simp [paramLoop, hs, hl], hr.trans hp.symm⟩

theorem paramStep_next {b b' : Message} (he : b.err = none) (ho : b.offset ≤ b.data.length)
    (hd : b.data.length < 2 ^ 32 - 4) (h : paramStep b = some (.next b')) :
    b'.data = b.data ∧ b'.err = none ∧ b.offset + 2 ≤ b'.offset ∧ b'.offset ≤ b.data.length ∧
      ∃ k v b₁, b.readString = some (k, b₁) ∧ b₁.readString = some (v, b') ∧
        b₁.offset < b.data.length := by
  rcases paramStep_spec he ho hd with ⟨r, h', -⟩ | ⟨b₂, h', hd', he', h2, ho', -, hr⟩ <;>
    rw [h'] at h <;> cases h
  exact ⟨hd', he', h2, ho', hr⟩

def PassStep (b b' : Message) : Prop := paramStep b = some (.next b')

abbrev PassReaches (b : Message) := Relation.ReflTransGen PassStep b

theorem PassReaches.inside {b b₁ : Message} (he : b.err = none) (ho : b.offset ≤ b.data.length)
    (hd : b.data.length < 2 ^ 32 - 4) (h : PassReaches b b₁) :
    b₁.data = b.data ∧ b₁.err = none ∧ b₁.offset ≤ b.data.length := by
  induction h with
  | refl => exact ⟨rfl, he, ho⟩
  | tail _ hs ih =>
    obtain ⟨hd₁, he₁, ho₁⟩ := ih
    obtain ⟨hd', he', -, ho', -⟩ := paramStep_next he₁ (hd₁ ▸ ho₁) (hd₁ ▸ hd) hs
    exact ⟨hd'.trans hd₁, he', hd₁ ▸ ho'⟩

/-- Steps 4 to 6 of `Match`: the payload, once read in full. -/
def parsePayload (data : List UInt8) (payloadLen : Nat) : Option Bool := do
  let (code, b) ← (newMessageFromBytes data).readUint32
  if b.err.isSome then return false
  if code = sslRequestCode ∧ payloadLen = 4 then return true
  let protocolVersion := code
  if protocolVersion >>> 16 < 3 then return false
  if payloadLen < minStartupPayloadLength then return false
  paramLoop data.length b

open Message in
theorem parsePayload_spec {data : List UInt8} {v : Nat} (h4 : 4 ≤ data.length)
    (h16 : data.length ≤ maxStartupPayloadSize) (hv : BigEndian.uint32 data = some v) :
    ∃ r, parsePayload data data.length = some r ∧
      (r = true ↔ (v = sslRequestCode ∧ data.length = 4) ∨
        (3 ≤ v >>> 16 ∧ ParamList (data.drop 4))) := by
  have hd : data.length < 2 ^ 32 - 4 := by simp only [maxStartupPayloadSize] at h16; omega
  have hr : (newMessageFromBytes data).readUint32 = some (v, ⟨data, 4, none, 0⟩) := by
    rw [readUint32_ok rfl (by simp [newMessageFromBytes]; omega) (by simpa using h4)]
    simp [newMessageFromBytes, hv]
  by_cases hssl : v = sslRequestCode ∧ data.length = 4
  · exact ⟨true, by simp only [parsePayload, hr]; simp [eq_true hssl], by simp [hssl]⟩
  by_cases hver : v >>> 16 < 3
  · exact ⟨false, by simp only [parsePayload, hr]; simp [hssl, hver], by simp [hssl]; omega⟩
  by_cases h5 : data.length < minStartupPayloadLength
  · have hnil : data.drop 4 = [] := by
      simp only [minStartupPayloadLength] at h5; simp; omega
    exact ⟨false, by simp only [parsePayload, hr]; simp [hssl, hver, h5],
      by simp [hssl, hnil, not_paramList_nil]⟩
  obtain ⟨r, hl, hp⟩ := paramLoop_spec data.length (b := ⟨data, 4, none, 0⟩) rfl
    (by simpa using h4) (by simpa using hd) (by simp; omega)
  refine ⟨r, by simp only [parsePayload, hr]; simp [hssl, hver, h5, hl], ?_⟩
  rw [hp]; simp [hssl, Nat.not_lt.mp hver]

/-- What `Match` returns when an `io.ReadFull` fails: no match, and no error
if the stream merely ended, the error wrapped with `context` otherwise. -/
def readFailure (context : String) (err : Error) : Bool × Option Error :=
  if errorsIs err .eof || errorsIs err .unexpectedEOF then (false, none)
  else (false, some (.wrap context err))

def readPayload (cx : Conn) (payloadLen : Nat) : Option ((Bool × Option Error) × Conn) :=
  let ((data, n, err), cx) := cx.readFull (List.replicate payloadLen 0)
  match err with
  | some err => some (readFailure ("reading message payload (declared length " ++
      toString payloadLen ++ "): ") err, cx)
  | none =>
    if n < payloadLen then some ((false, none), cx)
    else (parsePayload data payloadLen).map fun matched => ((matched, none), cx)

/-- `MatchPostgres.Match`: whether the connection starts like a Postgres
client, and the error to report. -/
def Match (cx : Conn) : Option ((Bool × Option Error) × Conn) :=
  let ((head, n, err), cx) := cx.readFull (List.replicate initMessageSizeLength 0)
  match err with
  | some err => some (readFailure "reading message length header: " err, cx)
  | none =>
    if n < initMessageSizeLength then some ((false, none), cx)
    else (BigEndian.uint32 head).bind fun messageLen =>
      if messageLen < minMessageLength then some ((false, none), cx)
      else
        let payloadLen := sub32 messageLen initMessageSizeLength
        if payloadLen > maxStartupPayloadSize then some ((false, none), cx)
        else if payloadLen = 0 then some ((false, none), cx)
        else readPayload cx payloadLen

end L4Postgres.Bounded
