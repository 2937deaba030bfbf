import L4Postgres.Frame

/-! Which streams the bounded `Match` accepts: on a stream ended by `io.EOF` without the
SSL request code, exactly those that begin with a startup message of the package's tests. -/

namespace L4Postgres.Bounded

/-- The bytes begin with a startup message as `buildStartupMessage` writes it:
a version of major 3 or more, well-formed parameters, and a payload within the
size bound, followed by anything. -/
def StartsWithStartup (bytes : List UInt8) : Prop :=
  ∃ version params rest, version < 2 ^ 32 ∧ 3 ≤ version >>> 16 ∧
    (∀ p ∈ params, PairOk p) ∧
    (startupPayload version params).length ≤ maxStartupPayloadSize ∧
    bytes = buildStartupMessage version params ++ rest

theorem startupPayload_length (version : Nat) (params : List (List UInt8 × List UInt8)) :
    5 ≤ (startupPayload version params).length := by
  simp only [startupPayload, encodeParams, List.length_append, BigEndian.putUint32_length,
    List.length_singleton]
  omega

theorem startup_header {bytes : List UInt8} {version : Nat}
    {params : List (List UInt8 × List UInt8)} {rest : List UInt8}
    (h16 : (startupPayload version params).length ≤ maxStartupPayloadSize)
    (hb : bytes = buildStartupMessage version params ++ rest) :
    4 ≤ bytes.length ∧
      BigEndian.uint32 (bytes.take 4) = some ((startupPayload version params).length + 4) ∧
      (startupPayload version params).length + 4 ≤ bytes.length ∧
      bytes.drop 4 = startupPayload version params ++ rest := by
  simp only [maxStartupPayloadSize] at h16
  have h5 := startupPayload_length version params
  have hu : u32 ((startupPayload version params).length + 4) =
      (startupPayload version params).length + 4 := u32_of_lt (by omega)
  rw [buildStartupMessage_eq, hu, List.append_assoc] at hb
  subst hb
  exact ⟨by simp, BigEndian.uint32_take_putUint32_append (by omega) _, by simp; omega, by simp⟩

theorem startsWithStartup_header {bytes : List UInt8} (h : StartsWithStartup bytes) :
    ∃ L, BigEndian.uint32 (bytes.take 4) = some L ∧ minMessageLength ≤ L ∧
      L - 4 ≤ maxStartupPayloadSize ∧ L ≤ bytes.length := by
  obtain ⟨v, params, rest, -, -, -, h16, hb⟩ := h
  obtain ⟨-, hL, hle, -⟩ := startup_header h16 hb
  have h5 := startupPayload_length v params
  exact ⟨_, hL, by simp only [minMessageLength]; omega, by omega, hle⟩

theorem Match_of_startup {c : Conn} {version : Nat} {params : List (List UInt8 × List UInt8)}
    {rest : List UInt8} (hv : version < 2 ^ 32) (hver : 3 ≤ version >>> 16)
    (hok : ∀ p ∈ params, PairOk p)
    (h16 : (startupPayload version params).length ≤ maxStartupPayloadSize)
    (hb : c.bytes = buildStartupMessage version params ++ rest) :
    ∃ c', Match c = some ((true, none), c') := by
  obtain ⟨h4, hL, hle, hdrop⟩ := startup_header h16 hb
  have h5 := startupPayload_length version params
  have hpay : (c.bytes.drop 4).take ((startupPayload version params).length + 4 - 4) =
      startupPayload version params := by
    rw [hdrop, Nat.add_sub_cancel, List.take_left' rfl]
  obtain ⟨c', hm, -⟩ := Match_frame h4 hL (by simp only [minMessageLength]; omega)
    (by rw [Nat.add_sub_cancel]; exact h16) hle
  have hu : BigEndian.uint32 (startupPayload version params) = some version :=
    BigEndian.uint32_putUint32_append hv _
  obtain ⟨r, hp, hr⟩ := parsePayload_spec (by omega) h16 hu
  have hpl : ParamList ((startupPayload version params).drop 4) := by
    rw [startupPayload, List.drop_left' (BigEndian.putUint32_length _)]
    exact paramList_encodeParams hok
  rw [hpay, Nat.add_sub_cancel, hp, (hr.mpr (.inr ⟨hver, hpl⟩))] at hm
  exact ⟨c', hm⟩

/-- On a stream that ends with `io.EOF` and does not carry the SSL request
code in bytes 4 to 7, `Match` answers without error, and it accepts exactly
when the stream begins with a startup message. -/
theorem Match_iff_startup {c : Conn} (hc : c.close = .eof)
    (hssl : (c.bytes.drop 4).take 4 ≠ BigEndian.putUint32 sslRequestCode) :
    ∃ r c', Match c = some ((r, none), c') ∧ (r = true ↔ StartsWithStartup c.bytes) := by
  rcases header_cases c.bytes with h | ⟨L, h, hL, hbad⟩ | ⟨L, h, hL, h8, h16⟩
  · refine ⟨false, _, by rw [Match_short_header h, hc, readFailure_of_eof], ?_⟩
    refine iff_of_false (by simp) fun hs => ?_
    obtain ⟨L, hL, h8, -, hle⟩ := startsWithStartup_header hs
    simp only [minMessageLength] at h8; omega
  · obtain ⟨c', hm, -⟩ := Match_bad_length h hL hbad
    refine ⟨false, c', hm, iff_of_false (by simp) fun hs => ?_⟩
    obtain ⟨L', hL', h8, h16, -⟩ := startsWithStartup_header hs
    rw [hL] at hL'; cases hL'; omega
  rcases Nat.lt_or_ge c.bytes.length L with hs | hs
  · refine ⟨false, _, by rw [Match_short_payload h hL h8 h16 hs, hc, readFailure_of_eof], ?_⟩
    refine iff_of_false (by simp) fun hst => ?_
    obtain ⟨L', hL', -, -, hle⟩ := startsWithStartup_header hst
    rw [hL] at hL'; cases hL'; omega
  -- the whole frame is there: the payload decides
  simp only [minMessageLength, maxStartupPayloadSize] at h8 h16
  obtain ⟨c', hm, -⟩ := Match_frame h hL h8 h16 hs
  have hlen : ((c.bytes.drop 4).take (L - 4)).length = L - 4 := by
    simp only [List.length_take, List.length_drop]; omega
  obtain ⟨v, hv⟩ := Option.isSome_iff_exists.mp
    (BigEndian.uint32_isSome (b := (c.bytes.drop 4).take (L - 4)) (by omega))
  have hdata := BigEndian.eq_putUint32_append (by omega) hv
  have hvssl : v ≠ sslRequestCode := by
    rintro rfl
    apply hssl
    have h44 : (c.bytes.drop 4).take 4 = ((c.bytes.drop 4).take (L - 4)).take 4 := by
      rw [List.take_take, Nat.min_eq_left (by omega)]
    rw [h44, hdata, List.take_left' (BigEndian.putUint32_length _)]
  obtain ⟨r, hp, hr⟩ := parsePayload_spec (by omega) (by simp only [maxStartupPayloadSize]; omega) hv
  rw [hlen] at hp
  refine ⟨r, c', by rw [hm, hp]; rfl, ?_⟩
  rw [hr]
  simp only [hvssl, false_and, false_or]
  constructor
  · rintro ⟨hver, hpl⟩
    obtain ⟨params, hok, hparams⟩ := paramList_iff.mp hpl
    have hpay : startupPayload v params = (c.bytes.drop 4).take (L - 4) := by
      rw [startupPayload, ← hparams, ← hdata]
    refine ⟨v, params, c.bytes.drop L, BigEndian.uint32_lt hv, hver, hok,
      by rw [hpay, hlen]; simp only [maxStartupPayloadSize]; omega, ?_⟩
    rw [buildStartupMessage_eq, hpay, u32_of_lt (by omega)]
    exact BigEndian.eq_frame hL (by omega) hs
  · rintro ⟨v', params, rest, hv', hver, hok, h16', hb⟩
    obtain ⟨c'', hm'⟩ := Match_of_startup hv' hver hok h16' hb
    have h := hm.symm.trans hm'
    rw [hp] at h
    simp only [Option.map_some', Option.some.injEq, Prod.mk.injEq] at h
    exact (hr.mp h.1.1).resolve_left fun h' => hvssl h'.1

theorem Match_iff_startup_of_empty_params :
    (⟨[[0, 0, 0, 9, 0, 3, 0, 0, 0]], .eof⟩ : Conn).close = .eof ∧
    ((⟨[[0, 0, 0, 9, 0, 3, 0, 0, 0]], .eof⟩ : Conn).bytes.drop 4).take 4 ≠
      BigEndian.putUint32 sslRequestCode ∧
    ∃ r c', Match ⟨[[0, 0, 0, 9, 0, 3, 0, 0, 0]], .eof⟩ = some ((r, none), c') ∧
      (r = true ↔ StartsWithStartup (⟨[[0, 0, 0, 9, 0, 3, 0, 0, 0]], .eof⟩ : Conn).bytes) :=
  ⟨rfl, by decide, Match_iff_startup rfl (by decide)⟩

/-- The SSL request code passes the version check (its upper half is 1234), so
a frame whose payload starts with the code and goes on with a well-formed
parameter list is accepted through the startup path, although its declared
length is not 8. -/
theorem Match_accepts_long_ssl_code {c : Conn} {params : List (List UInt8 × List UInt8)}
    {rest : List UInt8} (hok : ∀ p ∈ params, PairOk p)
    (h16 : (startupPayload sslRequestCode params).length ≤ maxStartupPayloadSize)
    (hb : c.bytes = buildStartupMessage sslRequestCode params ++ rest) :
    (c.bytes.drop 4).take 4 = BigEndian.putUint32 sslRequestCode ∧
      BigEndian.uint32 (c.bytes.take 4) ≠ some 8 ∧ ∃ c', Match c = some ((true, none), c') := by
  obtain ⟨-, hL, -, hdrop⟩ := startup_header h16 hb
  have h5 := startupPayload_length sslRequestCode params
  refine ⟨?_, by rw [hL]; simp; omega,
    Match_of_startup (by decide) (by decide) hok h16 hb⟩
  rw [hdrop, startupPayload, List.append_assoc, List.take_left' (BigEndian.putUint32_length _)]

theorem Match_accepts_long_ssl_code_nine :
    (∀ p ∈ ([] : List (List UInt8 × List UInt8)), PairOk p) ∧
    (startupPayload sslRequestCode []).length ≤ maxStartupPayloadSize ∧
    (⟨[[0, 0, 0, 9, 0x04, 0xD2, 0x16, 0x2F, 0]], .eof⟩ : Conn).bytes =
      buildStartupMessage sslRequestCode [] ++ [] ∧
    ((⟨[[0, 0, 0, 9, 0x04, 0xD2, 0x16, 0x2F, 0]], .eof⟩ : Conn).bytes.drop 4).take 4 =
      BigEndian.putUint32 sslRequestCode ∧
    BigEndian.uint32 ((⟨[[0, 0, 0, 9, 0x04, 0xD2, 0x16, 0x2F, 0]], .eof⟩ : Conn).bytes.take 4) ≠
      some 8 ∧
    ∃ c', Match ⟨[[0, 0, 0, 9, 0x04, 0xD2, 0x16, 0x2F, 0]], .eof⟩ = some ((true, none), c') :=
  have hb : (⟨[[0, 0, 0, 9, 0x04, 0xD2, 0x16, 0x2F, 0]], .eof⟩ : Conn).bytes =
      buildStartupMessage sslRequestCode [] ++ [] := by decide
  ⟨by simp, by decide, hb, Match_accepts_long_ssl_code (by simp) (by decide) hb⟩

end L4Postgres.Bounded
