import L4Postgres.Pooled

/-! What the pooled `Match` does with a whole stream: its verdict as a function of the
client's bytes and of the error that ends them, what it accepts, and what it panics on. -/

namespace L4Postgres.Pooled

variable {pool : List (List UInt8)} {c : Conn}

theorem Match_fst_pool_independent (hp : PoolOk pool) (c : Conn) :
    (Match pool c).1 = (Match [] c).1 := by
  rcases Nat.lt_or_ge c.bytes.length initMessageSizeLength with h | h
  · rw [Match_short_header hp h, Match_short_header poolOk_nil h]
  · obtain ⟨v, hv⟩ := Option.isSome_iff_exists.mp
      (BigEndian.uint32_isSome (b := c.bytes.take 4)
        (by simp only [initMessageSizeLength, List.length_take] at h ⊢; omega))
    rw [Match_of_header hp h hv, Match_of_header poolOk_nil h hv]

theorem Match_fst_pool_independent_of_used :
    PoolOk [[1, 0, 0, 0]] ∧ (Match [[1, 0, 0, 0]] ⟨[[0, 0]], .eof⟩).1 = (Match [] ⟨[[0, 0]], .eof⟩).1 :=
  have hp : PoolOk [[1, 0, 0, 0]] := by simp [PoolOk, initMessageSizeLength]
  ⟨hp, Match_fst_pool_independent hp _⟩

theorem Match_cases (hp : PoolOk pool) (c : Conn) :
    (c.bytes.length < 4 ∧ (Match pool c).1 =
      some ((false, some (shortReadError c.bytes.length c.close)), ⟨[], c.close⟩)) ∨
    (∃ h, BigEndian.uint32 (c.bytes.take 4) = some h ∧ 4 ≤ c.bytes.length ∧
      c.bytes.length < 4 + sub32 h initMessageSizeLength ∧ (Match pool c).1 =
        some ((false, some (shortReadError (c.bytes.length - 4) c.close)), ⟨[], c.close⟩)) ∨
    (∃ h c', BigEndian.uint32 (c.bytes.take 4) = some h ∧
      4 + sub32 h initMessageSizeLength ≤ c.bytes.length ∧
      c'.bytes = c.bytes.drop (4 + sub32 h initMessageSizeLength) ∧ c'.close = c.close ∧
      (Match pool c).1 = (parsePayload ((c.bytes.drop 4).take (sub32 h initMessageSizeLength))).map
        fun r => (r, c')) := by
  rcases Nat.lt_or_ge c.bytes.length initMessageSizeLength with h4 | h4
  · exact .inl ⟨h4, Match_short_header hp h4⟩
  obtain ⟨h, hh⟩ := Option.isSome_iff_exists.mp
    (BigEndian.uint32_isSome (b := c.bytes.take 4)
      (by simp only [initMessageSizeLength, List.length_take] at h4 ⊢; omega))
  obtain ⟨c1, h2, h3, hm⟩ := Match_after_header hp h4 hh
  simp only [initMessageSizeLength] at h4
  rcases Nat.lt_or_ge c.bytes.length (4 + sub32 h initMessageSizeLength) with hs | hs
  · refine .inr (.inl ⟨h, hh, h4, hs, ?_⟩)
    rw [hm, readPayload_of_lt (by simp [h2]; omega), h2, h3, List.length_drop]
  · obtain ⟨c', h2', h3', hr⟩ := readPayload_of_le (c := c1) (n := sub32 h initMessageSizeLength)
      (by simp [h2]; omega)
    exact .inr (.inr ⟨h, c', hh, hs, by rw [h2', h2, List.drop_drop], h3'.trans h3,
      by rw [hm, hr, h2]⟩)

/-- How far into the stream the pooled `Match` reads: the header, and then the
payload the header declares, however long. -/
def readExtent (bytes : List UInt8) : Nat :=
  match BigEndian.uint32 (bytes.take 4) with
  | some h => 4 + sub32 h initMessageSizeLength
  | none => 4

theorem readExtent_of_header {bytes : List UInt8} {h : Nat}
    (hh : BigEndian.uint32 (bytes.take 4) = some h) :
    readExtent bytes = 4 + sub32 h initMessageSizeLength := by
  simp only [readExtent, hh]

/-- When it returns, `Match` has read the header and the declared payload, or
the whole stream if that ends first, and nothing after them. -/
theorem Match_reads_extent (hp : PoolOk pool) {x : Bool × Option Error} {c' : Conn}
    (h : (Match pool c).1 = some (x, c')) :
    c'.bytes = c.bytes.drop (readExtent c.bytes) ∧ c'.close = c.close := by
  rcases Match_cases hp c with ⟨hs, hm⟩ | ⟨L, hL, -, hs, hm⟩ | ⟨L, c₁, hL, -, h2, h3, hm⟩
  · rw [hm] at h
    cases h
    refine ⟨(List.drop_eq_nil_of_le ?_).symm, rfl⟩
    unfold readExtent
    split <;> omega
  · rw [hm] at h
    cases h
    exact ⟨(List.drop_eq_nil_of_le (by rw [readExtent_of_header hL]; omega)).symm, rfl⟩
  · rw [hm] at h
    obtain ⟨_, -, hc⟩ := Option.map_eq_some'.mp h
    cases hc
    exact ⟨by rw [readExtent_of_header hL, h2], h3⟩

theorem Match_reads_extent_of_short_payload :
    PoolOk [] ∧ (Match [] ⟨[[0, 0, 0, 10, 0, 3]], .eof⟩).1 =
      some ((false, some .unexpectedEOF), ⟨[], .eof⟩) ∧
    (⟨[], .eof⟩ : Conn).bytes = (⟨[[0, 0, 0, 10, 0, 3]], .eof⟩ : Conn).bytes.drop
      (readExtent (⟨[[0, 0, 0, 10, 0, 3]], .eof⟩ : Conn).bytes) ∧
    (⟨[], .eof⟩ : Conn).close = (⟨[[0, 0, 0, 10, 0, 3]], .eof⟩ : Conn).close :=
  have hm : (Match [] ⟨[[0, 0, 0, 10, 0, 3]], .eof⟩).1 =
      some ((false, some .unexpectedEOF), ⟨[], .eof⟩) := by decide
  ⟨poolOk_nil, hm, Match_reads_extent poolOk_nil hm⟩

theorem four_le_readExtent (bytes : List UInt8) : 4 ≤ readExtent bytes := by
  unfold readExtent
  split <;> omega

/-- What `Match` answers, as a function of the bytes the client sends and the
error that ends them: the stream ends inside the header, or inside the declared
payload, or the payload is parsed. -/
def verdict (bytes : List UInt8) (close : Error) : Option (Bool × Option Error) :=
  if bytes.length < 4 then some (false, some (shortReadError bytes.length close))
  else if bytes.length < readExtent bytes then
    some (false, some (shortReadError (bytes.length - 4) close))
  else parsePayload ((bytes.drop 4).take (readExtent bytes - 4))

theorem Match_fst_eq_verdict (hp : PoolOk pool) (c : Conn) :
    (Match pool c).1.map Prod.fst = verdict c.bytes c.close := by
  rcases Match_cases hp c with ⟨hs, hm⟩ | ⟨L, hL, h4, hs, hm⟩ | ⟨L, c₁, hL, hs, -, -, hm⟩
  · rw [hm, verdict, if_pos hs]; rfl
  · rw [hm, verdict, if_neg (by omega), if_pos (by rw [readExtent_of_header hL]; exact hs)]; rfl
  · rw [hm, verdict, readExtent_of_header hL, if_neg (by omega), if_neg (by omega),
      Nat.add_sub_cancel_left, Option.map_map]
    exact Option.map_id'

theorem Match_verdict_chunking_independent (hp : PoolOk pool) {c d : Conn}
    (hb : d.bytes = c.bytes) (hc : d.close = c.close) :
    (Match pool d).1.map Prod.fst = (Match pool c).1.map Prod.fst := by
  rw [Match_fst_eq_verdict hp, Match_fst_eq_verdict hp, hb, hc]

theorem Match_verdict_chunking_independent_of_user :
    PoolOk [] ∧
      (⟨[[0, 0, 0], [13, 0, 3, 0, 0, 0x75], [0, 0x61, 0, 0]], .eof⟩ : Conn).bytes =
        (⟨[[0, 0, 0, 13, 0, 3, 0, 0, 0x75, 0, 0x61, 0, 0]], .eof⟩ : Conn).bytes ∧
      (⟨[[0, 0, 0], [13, 0, 3, 0, 0, 0x75], [0, 0x61, 0, 0]], .eof⟩ : Conn).close =
        (⟨[[0, 0, 0, 13, 0, 3, 0, 0, 0x75, 0, 0x61, 0, 0]], .eof⟩ : Conn).close ∧
      (Match [] ⟨[[0, 0, 0], [13, 0, 3, 0, 0, 0x75], [0, 0x61, 0, 0]], .eof⟩).1.map Prod.fst =
        (Match [] ⟨[[0, 0, 0, 13, 0, 3, 0, 0, 0x75, 0, 0x61, 0, 0]], .eof⟩).1.map Prod.fst :=
  ⟨poolOk_nil, rfl, rfl, Match_verdict_chunking_independent poolOk_nil rfl rfl⟩

theorem verdict_of_frame {b b' : List UInt8} (close close' : Error) (hb : readExtent b ≤ b.length)
    (hb' : readExtent b ≤ b'.length) (ht : b'.take (readExtent b) = b.take (readExtent b)) :
    verdict b' close' = verdict b close := by
  have h4 := four_le_readExtent b
  have hhead : b'.take 4 = b.take 4 := by
    have := congrArg (List.take 4) ht
    rwa [List.take_take, List.take_take, min_eq_left h4] at this
  have hext : readExtent b' = readExtent b := by simp only [readExtent, hhead]
  have hpay : ∀ l : List UInt8, (l.drop 4).take (readExtent b - 4) = (l.take (readExtent b)).drop 4 :=
    fun l => by rw [List.take_drop, Nat.add_sub_cancel' h4]
  rw [verdict, verdict, hext, if_neg (by omega), if_neg (by omega), if_neg (by omega),
    if_neg (by omega), hpay, hpay, ht]

/-- Once the header and the payload it declares have arrived, neither the bytes
after them nor how the stream ends changes the verdict. -/
theorem Match_verdict_of_frame (hp : PoolOk pool) {c d : Conn}
    (hc : readExtent c.bytes ≤ c.bytes.length) (hd : readExtent c.bytes ≤ d.bytes.length)
    (ht : d.bytes.take (readExtent c.bytes) = c.bytes.take (readExtent c.bytes)) :
    (Match pool d).1.map Prod.fst = (Match pool c).1.map Prod.fst := by
  rw [Match_fst_eq_verdict hp, Match_fst_eq_verdict hp]
  exact verdict_of_frame _ _ hc hd ht

theorem Match_verdict_of_frame_of_trailing_fault :
    PoolOk [] ∧
      readExtent [0, 0, 0, 9, 0, 3, 0, 0, 0] ≤ ([0, 0, 0, 9, 0, 3, 0, 0, 0] : List UInt8).length ∧
      readExtent [0, 0, 0, 9, 0, 3, 0, 0, 0] ≤
        (⟨[[0, 0, 0, 9], [0, 3, 0, 0, 0, 0x7a]], .fault 1⟩ : Conn).bytes.length ∧
      (⟨[[0, 0, 0, 9], [0, 3, 0, 0, 0, 0x7a]], .fault 1⟩ : Conn).bytes.take
          (readExtent [0, 0, 0, 9, 0, 3, 0, 0, 0]) =
        [0, 0, 0, 9, 0, 3, 0, 0, 0].take (readExtent [0, 0, 0, 9, 0, 3, 0, 0, 0]) ∧
      (Match [] ⟨[[0, 0, 0, 9], [0, 3, 0, 0, 0, 0x7a]], .fault 1⟩).1.map Prod.fst =
        (Match [] ⟨[[0, 0, 0, 9, 0, 3, 0, 0, 0]], .eof⟩).1.map Prod.fst :=
  have hc : readExtent [0, 0, 0, 9, 0, 3, 0, 0, 0] ≤ ([0, 0, 0, 9, 0, 3, 0, 0, 0] : List UInt8).length :=
    by decide
  have hd : readExtent [0, 0, 0, 9, 0, 3, 0, 0, 0] ≤
      (⟨[[0, 0, 0, 9], [0, 3, 0, 0, 0, 0x7a]], .fault 1⟩ : Conn).bytes.length := by decide
  have ht : (⟨[[0, 0, 0, 9], [0, 3, 0, 0, 0, 0x7a]], .fault 1⟩ : Conn).bytes.take
      (readExtent [0, 0, 0, 9, 0, 3, 0, 0, 0]) =
        [0, 0, 0, 9, 0, 3, 0, 0, 0].take (readExtent [0, 0, 0, 9, 0, 3, 0, 0, 0]) := by decide
  ⟨poolOk_nil, hc, hd, ht, Match_verdict_of_frame (c := ⟨[[0, 0, 0, 9, 0, 3, 0, 0, 0]], .eof⟩)
    poolOk_nil hc hd ht⟩

/-- A verdict reached without an error stays the same however many more bytes
arrive, however they arrive and however the stream then ends. -/
theorem Match_verdict_stable (hp : PoolOk pool) {c d : Conn} {x : Bool × Option Error} {c' : Conn}
    (h : (Match pool c).1 = some (x, c')) (hx : x.2 = none) (hpre : c.bytes <+: d.bytes) :
    (Match pool d).1.map Prod.fst = some x := by
  rcases Match_cases hp c with ⟨-, hm⟩ | ⟨L, -, -, -, hm⟩ | ⟨L, c₁, hL, hs, -, -, hm⟩
  · rw [hm] at h; cases h; cases hx
  · rw [hm] at h; cases h; cases hx
  have hc : readExtent c.bytes ≤ c.bytes.length := by rwa [readExtent_of_header hL]
  have ht : d.bytes.take (readExtent c.bytes) = c.bytes.take (readExtent c.bytes) := by
    obtain ⟨u, hu⟩ := hpre
    rw [← hu, List.take_append_of_le_length hc]
  rw [Match_fst_eq_verdict hp, verdict_of_frame _ _ hc (hc.trans hpre.length_le) ht,
    ← Match_fst_eq_verdict hp, h]
  rfl

theorem Match_verdict_stable_of_startup :
    PoolOk [] ∧
      (Match [] ⟨[[0, 0, 0, 13, 0, 3, 0, 0, 0x75, 0, 0x61, 0, 0]], .fault 1⟩).1 =
        some ((true, none), ⟨[], .fault 1⟩) ∧
      ((true, none) : Bool × Option Error).2 = none ∧
      [0, 0, 0, 13, 0, 3, 0, 0, 0x75, 0, 0x61, 0, 0] <+:
        (⟨[[0, 0, 0, 13, 0, 3], [0, 0, 0x75, 0, 0x61, 0, 0, 0x51]], .eof⟩ : Conn).bytes ∧
      (Match [] ⟨[[0, 0, 0, 13, 0, 3], [0, 0, 0x75, 0, 0x61, 0, 0, 0x51]], .eof⟩).1.map Prod.fst =
        some (true, none) :=
  have h : (Match [] ⟨[[0, 0, 0, 13, 0, 3, 0, 0, 0x75, 0, 0x61, 0, 0]], .fault 1⟩).1 =
      some ((true, none), ⟨[], .fault 1⟩) := by decide
  have hpre : [0, 0, 0, 13, 0, 3, 0, 0, 0x75, 0, 0x61, 0, 0] <+:
      (⟨[[0, 0, 0, 13, 0, 3], [0, 0, 0x75, 0, 0x61, 0, 0, 0x51]], .eof⟩ : Conn).bytes :=
    ⟨[0x51], rfl⟩
  ⟨poolOk_nil, h, rfl, hpre, Match_verdict_stable (d := ⟨[[0, 0, 0, 13, 0, 3],
    [0, 0, 0x75, 0, 0x61, 0, 0, 0x51]], .eof⟩) poolOk_nil h rfl hpre⟩

/-- The pooled `Match` reports an error only when the stream ends or breaks inside
the header or inside the declared payload, passing on the read's error as it is,
or when the version is below 3.0; it never reports a match with an error. -/
theorem Match_error_cases (hp : PoolOk pool) {x : Bool} {e : Error} {c' : Conn}
    (h : (Match pool c).1 = some ((x, some e), c')) :
    x = false ∧
      ((c.bytes.length < 4 ∧ e = shortReadError c.bytes.length c.close) ∨
       (4 ≤ c.bytes.length ∧ c.bytes.length < readExtent c.bytes ∧
          e = shortReadError (c.bytes.length - 4) c.close) ∨
       (readExtent c.bytes ≤ c.bytes.length ∧
          (∃ v, BigEndian.uint32 ((c.bytes.drop 4).take (readExtent c.bytes - 4)) = some v ∧
            v >>> 16 < 3) ∧
          e = .new "pg protocol < 3.0 is not supported")) := by
  rcases Match_cases hp c with ⟨hs, hm⟩ | ⟨L, hL, h4, hs, hm⟩ | ⟨L, c₁, hL, hs, -, -, hm⟩
  · rw [hm] at h
    cases h
    exact ⟨rfl, .inl ⟨hs, rfl⟩⟩
  · rw [hm] at h
    cases h
    exact ⟨rfl, .inr (.inl ⟨h4, by rwa [readExtent_of_header hL], rfl⟩)⟩
  · rw [hm] at h
    obtain ⟨_, hp', hc⟩ := Option.map_eq_some'.mp h
    cases hc
    obtain ⟨rfl, hv, rfl⟩ := parsePayload_error hp'
    rw [readExtent_of_header hL, Nat.add_sub_cancel_left]
    exact ⟨rfl, .inr (.inr ⟨hs, hv, rfl⟩)⟩

theorem Match_error_cases_of_old_version :
    PoolOk [] ∧ (Match [] ⟨[[0, 0, 0, 9, 0, 2, 0, 0, 0]], .eof⟩).1 =
        some ((false, some (.new "pg protocol < 3.0 is not supported")), ⟨[], .eof⟩) ∧
      readExtent [0, 0, 0, 9, 0, 2, 0, 0, 0] ≤ 9 ∧
      (∃ v, BigEndian.uint32 (([0, 0, 0, 9, 0, 2, 0, 0, 0] : List UInt8).drop 4 |>.take
          (readExtent [0, 0, 0, 9, 0, 2, 0, 0, 0] - 4)) = some v ∧ v >>> 16 < 3) :=
  have hm : (Match [] ⟨[[0, 0, 0, 9, 0, 2, 0, 0, 0]], .eof⟩).1 =
      some ((false, some (.new "pg protocol < 3.0 is not supported")), ⟨[], .eof⟩) := by decide
  match (Match_error_cases poolOk_nil hm).2 with
  | .inl ⟨h, _⟩ => absurd h (by decide)
  | .inr (.inl ⟨_, h, _⟩) => absurd h (by decide)
  | .inr (.inr ⟨h, hv, _⟩) => ⟨poolOk_nil, hm, h, hv⟩

/-- Every startup message of version 3.0 or later with at least one parameter is
accepted, in any chunking and whatever follows it. -/
theorem Match_accepts_startup (hp : PoolOk pool) (version : Nat) (params : Params)
    (rest : List UInt8) (hv : version < 2 ^ 32) (hver : 3 ≤ version >>> 16) (hne : params ≠ [])
    (hok : ∀ p ∈ params, PairOk p) (hL : (startupPayload version params).length + 4 < 2 ^ 32)
    (hb : c.bytes = buildStartupMessage version params ++ rest) :
    ∃ c', (Match pool c).1 = some ((true, none), c') ∧ c'.bytes = rest ∧ c'.close = c.close := by
  rw [buildStartupMessage_eq, u32_of_lt hL] at hb
  obtain ⟨c', h1, h2, h3⟩ := Match_frame hp hL hb
  refine ⟨c', ?_, h1, h2⟩
  rw [h3, startupPayload, encodeParams]
  by_cases hssl : version = sslRequestCode
  · rw [parsePayload_version hv, if_pos hssl]; rfl
  · rw [parsePayload_closed hv hssl hver hok (t := [0]) rfl
      (by rw [startupPayload, encodeParams] at hL; omega)]
    simp [hne]

theorem Match_accepts_startup_of_user :
    ∃ c', (Match [] ⟨[[0, 0, 0, 13, 0, 3, 0, 0, 0x75, 0, 0x61, 0, 0]], .eof⟩).1 =
      some ((true, none), c') ∧ c'.bytes = [] ∧ c'.close = .eof :=
  Match_accepts_startup poolOk_nil 0x30000 [([0x75], [0x61])] [] (by decide) (by decide)
    (by simp) (by decide) (by decide) (by decide)

/-- On a startup payload the parameter loop, run as the code runs it, breaks out
with the client's parameters: each key holds the value of the last pair that
names it, and no other key is set. -/
theorem loopRun_startup_params (version : Nat) (params : Params) (hok : ∀ p ∈ params, PairOk p)
    (hL : (startupPayload version params).length < 2 ^ 32 - 1) :
    ∃ m, LoopRun ⟨startupPayload version params, 4⟩ [] (some m) ∧
      ∀ k, m.get k = (params.reverse.find? fun p => p.1 = k).map Prod.snd := by
  have hlen : (startupPayload version params).length = (encodePairs params).length + 5 := by
    simp only [startupPayload, encodeParams, List.length_append, BigEndian.putUint32_length,
      List.length_singleton]
    omega
  have hf := length_le_encodePairs params
  have hloop := paramLoop_closed (b := ⟨startupPayload version params, 4⟩) hL hok (t := [0]) rfl
    (by simp only [hlen]; omega) (List.drop_left' (BigEndian.putUint32_length version)) []
    (startupPayload version params).length (by omega)
  refine ⟨_, (paramLoop_eq_iff_loopRun hL (by simp only [hlen]; omega) (by simp only [hlen]; omega)
    [] _).mp hloop, fun k => ?_⟩
  rw [get_insertAll]
  cases (params.reverse.find? fun p => p.1 = k).map Prod.snd <;> rfl

theorem loopRun_startup_params_of_repeated_key :
    (∀ p ∈ [([0x75], [0x61]), ([0x75], [0x62])], PairOk p) ∧
      (startupPayload 0x30000 [([0x75], [0x61]), ([0x75], [0x62])]).length < 2 ^ 32 - 1 ∧
      ∃ m, LoopRun ⟨startupPayload 0x30000 [([0x75], [0x61]), ([0x75], [0x62])], 4⟩ [] (some m) ∧
        ∀ k, m.get k = ([([0x75], [0x61]), ([0x75], [0x62])].reverse.find? fun p => p.1 = k).map
          Prod.snd :=
  have hok : ∀ p ∈ [([0x75], [0x61]), ([0x75], [0x62])], PairOk p := by decide
  have hL : (startupPayload 0x30000 [([0x75], [0x61]), ([0x75], [0x62])]).length < 2 ^ 32 - 1 := by
    decide
  ⟨hok, hL, loopRun_startup_params _ _ hok hL⟩

/-- Parameter lists that are closed but do not end in one NUL at the end of the
payload are accepted too: one whose terminator is the end of the payload, and one
followed by more bytes. Such a payload is no startup payload. -/
theorem Match_accepts_unclosed_tail (hp : PoolOk pool) (version : Nat) (params : Params)
    (t rest d : List UInt8) (hv : version < 2 ^ 32) (hssl : version ≠ sslRequestCode)
    (hver : 3 ≤ version >>> 16) (hne : params ≠ []) (hok : ∀ p ∈ params, PairOk p)
    (ht : t.takeWhile notNul = []) (ht0 : t ≠ [0])
    (hd : d = BigEndian.putUint32 version ++ (encodePairs params ++ t))
    (hL : d.length + 4 < 2 ^ 32) (hb : c.bytes = BigEndian.putUint32 (d.length + 4) ++ d ++ rest) :
    (∃ c', (Match pool c).1 = some ((true, none), c')) ∧
      ¬ ∃ v ps, (∀ p ∈ ps, PairOk p) ∧ d = startupPayload v ps := by
  refine ⟨?_, ?_⟩
  · obtain ⟨c', -, -, h3⟩ := Match_frame hp hL hb
    refine ⟨c', ?_⟩
    rw [h3, hd, parsePayload_closed hv hssl hver hok ht (by rw [← hd]; omega)]
    simp [hne]
  · rintro ⟨v, ps, hps, hd'⟩
    rw [hd, startupPayload, encodeParams] at hd'
    have hpl := paramList_encodeParams hps
    rw [encodeParams, ← List.append_inj_right hd' (by simp),
      paramList_encodePairs_append_iff hok] at hpl
    rcases takeWhile_notNul_eq_nil_iff.mp ht with rfl | ⟨t', rfl⟩
    · exact not_paramList_nil hpl
    · exact ht0 (by rw [paramList_zero_cons_iff.mp hpl])

theorem Match_accepts_unclosed_tail_of_trailing_byte :
    (∃ c', (Match [] ⟨[[0, 0, 0, 14, 0, 3, 0, 0, 0x61, 0, 0x62, 0, 0, 0x7a]], .eof⟩).1 =
      some ((true, none), c')) ∧
      ¬ ∃ v ps, (∀ p ∈ ps, PairOk p) ∧ [0, 3, 0, 0, 0x61, 0, 0x62, 0, 0, 0x7a] = startupPayload v ps :=
  Match_accepts_unclosed_tail poolOk_nil 0x30000 [([0x61], [0x62])] [0, 0x7a] []
    [0, 3, 0, 0, 0x61, 0, 0x62, 0, 0, 0x7a] (by decide) (by decide) (by decide) (by simp)
    (by decide) (by decide) (by decide) (by decide) (by decide) (by decide)

theorem parsePayload_true_cases {d : List UInt8} (hd : d.length < 2 ^ 32 - 1)
    (h : parsePayload d = some (true, none)) :
    (∃ r, d = BigEndian.putUint32 sslRequestCode ++ r) ∨
      ∃ v params t, v < 2 ^ 32 ∧ v ≠ sslRequestCode ∧ 3 ≤ v >>> 16 ∧ params ≠ [] ∧
        (∀ p ∈ params, PairOk p) ∧ t.takeWhile notNul = [] ∧
        d = BigEndian.putUint32 v ++ (encodePairs params ++ t) := by
  rcases Nat.lt_or_ge d.length 4 with h4 | h4
  · rw [parsePayload_short h4] at h; cases h
  obtain ⟨v, hv⟩ := Option.isSome_iff_exists.mp (BigEndian.uint32_isSome h4)
  have hv32 := BigEndian.uint32_lt hv
  rw [BigEndian.eq_putUint32_append h4 hv] at h hd ⊢
  by_cases hssl : v = sslRequestCode
  · exact .inl ⟨_, by rw [hssl]⟩
  by_cases hver : v >>> 16 < 3
  · rw [parsePayload_version hv32, if_neg hssl, if_pos hver] at h; cases h
  by_cases hr : ClosedParams (d.drop 4)
  · obtain ⟨params, t, hok, ht, hr⟩ := hr
    rw [hr] at h hd
    rw [parsePayload_closed hv32 hssl (by omega) hok ht hd] at h
    exact .inr ⟨v, params, t, hv32, hssl, by omega, by simpa using h, hok, ht, by rw [hr]⟩
  · rw [parsePayload_not_closed hv32 hssl (by omega) hr hd] at h; cases h

/-- The payloads the pooled parser accepts: the SSL request code, or a version of
3.0 or later before a closed parameter list with a pair. -/
theorem parsePayload_eq_true_iff {d : List UInt8} (hd : d.length < 2 ^ 32 - 1) :
    parsePayload d = some (true, none) ↔
      (∃ r, d = BigEndian.putUint32 sslRequestCode ++ r) ∨
      ∃ v params t, v < 2 ^ 32 ∧ 3 ≤ v >>> 16 ∧ params ≠ [] ∧ (∀ p ∈ params, PairOk p) ∧
        t.takeWhile notNul = [] ∧ d = BigEndian.putUint32 v ++ (encodePairs params ++ t) := by
  constructor
  · intro h
    rcases parsePayload_true_cases hd h with hs | ⟨v, params, t, hv, -, hp⟩
    exacts [.inl hs, .inr ⟨v, params, t, hv, hp⟩]
  · rintro (⟨r, rfl⟩ | ⟨v, params, t, hv, hver, hne, hok, ht, rfl⟩)
    · rw [parsePayload_version (by decide), if_pos rfl]
    · by_cases hssl : v = sslRequestCode
      · rw [parsePayload_version hv, if_pos hssl]
      · rw [parsePayload_closed hv hssl hver hok ht hd]; simp [hne]

theorem parsePayload_eq_true_iff_of_trailing_byte :
    ([0, 3, 0, 0, 0x61, 0, 0x62, 0, 0, 0x7a] : List UInt8).length < 2 ^ 32 - 1 ∧
      (parsePayload [0, 3, 0, 0, 0x61, 0, 0x62, 0, 0, 0x7a] = some (true, none) ↔
        (∃ r, [0, 3, 0, 0, 0x61, 0, 0x62, 0, 0, 0x7a] = BigEndian.putUint32 sslRequestCode ++ r) ∨
        ∃ v params t, v < 2 ^ 32 ∧ 3 ≤ v >>> 16 ∧ params ≠ [] ∧ (∀ p ∈ params, PairOk p) ∧
          t.takeWhile notNul = [] ∧
          [0, 3, 0, 0, 0x61, 0, 0x62, 0, 0, 0x7a] = BigEndian.putUint32 v ++ (encodePairs params ++ t)) :=
  ⟨by decide, parsePayload_eq_true_iff (by decide)⟩

/-- A version of 3.0 or later before a parameter list that is not closed: its
last string runs into the end of the payload, and the next `ReadString` indexes
past it. The loop, run as the code runs it, ends in that panic. -/
theorem Match_panics_on_open_parameters (hp : PoolOk pool) (version : Nat) (r rest : List UInt8)
    (hv : version < 2 ^ 32) (hssl : version ≠ sslRequestCode) (hver : 3 ≤ version >>> 16)
    (hr : ¬ ClosedParams r) (hL : r.length + 8 < 2 ^ 32)
    (hb : c.bytes = BigEndian.putUint32 (r.length + 8) ++ (BigEndian.putUint32 version ++ r) ++ rest) :
    (Match pool c).1 = none ∧ LoopRun ⟨BigEndian.putUint32 version ++ r, 4⟩ [] none := by
  have hl : (BigEndian.putUint32 version ++ r).length + 4 = r.length + 8 := by simp; omega
  have hd : (BigEndian.putUint32 version ++ r).length < 2 ^ 32 - 1 := by omega
  obtain ⟨c', -, -, h3⟩ := Match_frame hp (d := BigEndian.putUint32 version ++ r) (by omega)
    (by rw [hl]; exact hb)
  refine ⟨by rw [h3, parsePayload_not_closed hv hssl hver hr hd]; rfl, ?_⟩
  have h4 : (BigEndian.putUint32 version ++ r).length = r.length + 4 := by simp; omega
  refine (paramLoop_eq_iff_loopRun hd (by simp only [h4]; omega) (by simp only [h4]; omega) [] none).mp
    (paramLoop_of_not_closed hd (by simp only [h4]; omega) ?_ [] (r.length + 4))
  rwa [List.drop_left' (BigEndian.putUint32_length _)]

theorem Match_panics_on_open_parameters_of_key :
    ¬ ClosedParams [0x61] ∧ (Match [] ⟨[[0, 0, 0, 9, 0, 3, 0, 0, 0x61]], .eof⟩).1 = none ∧
      LoopRun ⟨[0, 3, 0, 0, 0x61], 4⟩ [] none :=
  have hr : ¬ ClosedParams [0x61] := not_closedParams_of_nulFree (by simp) (by decide)
  ⟨hr, Match_panics_on_open_parameters poolOk_nil 0x30000 [0x61] [] (by decide) (by decide)
    (by decide) hr (by decide) (by decide)⟩

theorem parsePayload_eq_none_iff {d : List UInt8} (hd : d.length < 2 ^ 32 - 1) :
    parsePayload d = none ↔ d.length < 4 ∨ ∃ v r, v < 2 ^ 32 ∧ v ≠ sslRequestCode ∧
      3 ≤ v >>> 16 ∧ ¬ ClosedParams r ∧ d = BigEndian.putUint32 v ++ r := by
  refine ⟨fun h => ?_, ?_⟩
  · rcases Nat.lt_or_ge d.length 4 with h4 | h4
    · exact .inl h4
    obtain ⟨v, hv⟩ := Option.isSome_iff_exists.mp (BigEndian.uint32_isSome h4)
    have hv32 := BigEndian.uint32_lt hv
    rw [BigEndian.eq_putUint32_append h4 hv] at h hd ⊢
    have hssl : v ≠ sslRequestCode := fun e => by
      rw [parsePayload_version hv32, if_pos e] at h; cases h
    have hver : 3 ≤ v >>> 16 := Nat.le_of_not_lt fun e => by
      rw [parsePayload_version hv32, if_neg hssl, if_pos e] at h; cases h
    refine .inr ⟨v, d.drop 4, hv32, hssl, hver, ?_, rfl⟩
    rintro ⟨params, t, hok, ht, hr⟩
    rw [hr] at h hd
    rw [parsePayload_closed hv32 hssl hver hok ht hd] at h
    cases h
  · rintro (h4 | ⟨v, r, hv, hssl, hver, hr, rfl⟩)
    exacts [parsePayload_short h4, parsePayload_not_closed hv hssl hver hr hd]

/-- The streams the pooled `Match` panics on are exactly those that hold a whole
frame, a header `h` and the `h - 4` bytes it declares (in uint32 arithmetic),
whose payload is too short for the version word, or carries a version of 3.0 or
later, other than the SSL request code, before a parameter list that is not
closed. -/
theorem Match_panics_iff (hp : PoolOk pool) (c : Conn) (hc : c.bytes.length < 2 ^ 32 + 3) :
    (Match pool c).1 = none ↔ ∃ h d rest, h < 2 ^ 32 ∧ d.length = sub32 h initMessageSizeLength ∧
      c.bytes = BigEndian.putUint32 h ++ d ++ rest ∧
      (d.length < 4 ∨ ∃ v r, v < 2 ^ 32 ∧ v ≠ sslRequestCode ∧ 3 ≤ v >>> 16 ∧
        ¬ ClosedParams r ∧ d = BigEndian.putUint32 v ++ r) := by
  have hm : (Match pool c).1 = none ↔ verdict c.bytes c.close = none := by
    rw [← Match_fst_eq_verdict hp, Option.map_eq_none']
  rw [hm, verdict]
  constructor
  · intro hv
    split_ifs at hv with h4 hext
    obtain ⟨h, hh⟩ := Option.isSome_iff_exists.mp
      (BigEndian.uint32_isSome (b := c.bytes.take 4) (by simp only [List.length_take]; omega))
    rw [readExtent_of_header hh] at hext
    rw [readExtent_of_header hh, Nat.add_sub_cancel_left] at hv
    have hlen : ((c.bytes.drop 4).take (sub32 h initMessageSizeLength)).length =
        sub32 h initMessageSizeLength := by
      simp only [List.length_take, List.length_drop]; omega
    refine ⟨h, _, (c.bytes.drop 4).drop (sub32 h initMessageSizeLength), BigEndian.uint32_lt hh,
      hlen, ?_, (parsePayload_eq_none_iff (by omega)).mp hv⟩
    rw [List.append_assoc, List.take_append_drop,
      BigEndian.putUint32_uint32 (by simp only [List.length_take]; omega) hh, List.take_append_drop]
  · rintro ⟨h, d, rest, hh, hlen, hb, hpanic⟩
    have hhead : BigEndian.uint32 (c.bytes.take 4) = some h := by
      rw [hb, List.append_assoc]; exact BigEndian.uint32_take_putUint32_append hh _
    have hblen : c.bytes.length = 4 + d.length + rest.length := by
      rw [hb, List.length_append, List.length_append, BigEndian.putUint32_length]
    have hpay : (c.bytes.drop 4).take d.length = d := by
      rw [hb, List.append_assoc, List.drop_left' (BigEndian.putUint32_length h), List.take_left]
    rw [readExtent_of_header hhead, Nat.add_sub_cancel_left, ← hlen, if_neg (by omega),
      if_neg (by omega), hpay]
    exact (parsePayload_eq_none_iff (by omega)).mpr hpanic

theorem Match_panics_iff_of_open_value :
    PoolOk [] ∧ (⟨[[0, 0, 0, 11, 0, 3, 0, 0, 0x61, 0, 0x62]], .eof⟩ : Conn).bytes.length < 2 ^ 32 + 3 ∧
      ((Match [] ⟨[[0, 0, 0, 11, 0, 3, 0, 0, 0x61, 0, 0x62]], .eof⟩).1 = none ↔
        ∃ h d rest, h < 2 ^ 32 ∧ d.length = sub32 h initMessageSizeLength ∧
          (⟨[[0, 0, 0, 11, 0, 3, 0, 0, 0x61, 0, 0x62]], .eof⟩ : Conn).bytes =
            BigEndian.putUint32 h ++ d ++ rest ∧
          (d.length < 4 ∨ ∃ v r, v < 2 ^ 32 ∧ v ≠ sslRequestCode ∧ 3 ≤ v >>> 16 ∧
            ¬ ClosedParams r ∧ d = BigEndian.putUint32 v ++ r)) :=
  ⟨poolOk_nil, by decide, Match_panics_iff poolOk_nil _ (by decide)⟩

/-- A header below 4 wraps round to a payload length near `2^32`, and one above
16388 declares more than 16384 bytes; either way `Match` allocates the payload and
takes as payload every byte the client sends, up to that length. -/
theorem Match_reads_oversized_payload (hp : PoolOk pool) (h : Nat) (t : List UInt8)
    (hh : h < 4 ∨ 16388 < h) (h32 : h < 2 ^ 32) (hb : c.bytes = BigEndian.putUint32 h ++ t)
    (ht : t.length < sub32 h initMessageSizeLength) :
    (h < 4 → sub32 h initMessageSizeLength = h + 2 ^ 32 - 4) ∧
      maxStartupPayloadSize < sub32 h initMessageSizeLength ∧
      (Match pool c).1 = some ((false, some (shortReadError t.length c.close)), ⟨[], c.close⟩) := by
  refine ⟨fun h4 => ?_, ?_, ?_⟩
  · simp only [sub32, u32, initMessageSizeLength]; omega
  · simp only [sub32, u32, initMessageSizeLength, maxStartupPayloadSize]; omega
  obtain ⟨c1, h2, h3, hm⟩ := Match_after_header hp (c := c) (by simp [hb, initMessageSizeLength])
    (by rw [hb]; exact BigEndian.uint32_take_putUint32_append h32 t)
  rw [hb, List.drop_left' (BigEndian.putUint32_length h)] at h2
  rw [hm, readPayload_of_lt (by rw [h2]; exact ht), h2, h3]

theorem Match_reads_oversized_payload_of_zero :
    sub32 0 initMessageSizeLength = 4294967292 ∧
      (Match [] ⟨[BigEndian.putUint32 0 ++ List.replicate 16385 0], .eof⟩).1 =
        some ((false, some .unexpectedEOF), ⟨[], .eof⟩) := by
  obtain ⟨h1, -, h3⟩ := Match_reads_oversized_payload poolOk_nil
    (c := ⟨[BigEndian.putUint32 0 ++ List.replicate 16385 0], .eof⟩) 0 (List.replicate 16385 0)
    (by decide) (by decide) (by simp only [Conn.bytes, List.flatten_cons, List.flatten_nil,
      List.append_nil]) (by rw [List.length_replicate]; decide)
  exact ⟨(h1 (by decide)).trans (by norm_num), by rw [h3, List.length_replicate]; rfl⟩

end L4Postgres.Pooled
