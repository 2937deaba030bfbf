import L4Postgres.Frame
import L4Postgres.PooledFrame

/-! The two matchers side by side: what the bounded `Match` of src/unnamed accepts,
the pooled one of matcher.go accepts too, but for a startup message with no
parameter, and what only the pooled one accepts falls into three kinds of frame. -/

namespace L4Postgres

theorem Bounded.readFailure_fst (context : String) (err : Error) :
    (Bounded.readFailure context err).1 = false := by
  unfold Bounded.readFailure
  split <;> rfl

/-- Whatever the bounded matcher accepts, the pooled one accepts, except a
startup message whose parameter list is empty: a version of 3.0 or later and
one NUL, which the pooled one answers with `(false, nil)`. -/
theorem pooled_accepts_of_bounded {pool : List (List UInt8)} (hp : Pooled.PoolOk pool)
    {c c' : Conn} (h : Bounded.Match c = some ((true, none), c')) :
    (∃ c'', (Pooled.Match pool c).1 = some ((true, none), c'')) ∨
      ∃ v c'', 3 ≤ v >>> 16 ∧ v ≠ sslRequestCode ∧
        c.bytes.take 9 = BigEndian.putUint32 9 ++ (BigEndian.putUint32 v ++ [0]) ∧
        (Pooled.Match pool c).1 = some ((false, none), c'') := by
  have hfail : ∀ ctx e c₀, Bounded.Match c = some (Bounded.readFailure ctx e, c₀) → False := by
    intro ctx e c₀ hm
    rw [hm, Option.some.injEq, Prod.mk.injEq] at h
    exact absurd (congrArg Prod.fst h.1) (by rw [Bounded.readFailure_fst]; decide)
  rcases Bounded.header_cases c.bytes with hs | ⟨L, h4, hL, hbad⟩ | ⟨L, h4, hL, h8, h16⟩
  · exact (hfail _ _ _ (Bounded.Match_short_header hs)).elim
  · obtain ⟨_, hm, -⟩ := Bounded.Match_bad_length h4 hL hbad
    rw [hm] at h
    cases h
  rcases Nat.lt_or_ge c.bytes.length L with hs | hs
  · exact (hfail _ _ _ (Bounded.Match_short_payload h4 hL h8 h16 hs)).elim
  simp only [minMessageLength, maxStartupPayloadSize] at h8 h16
  -- the whole frame is there, and the payload decides for both
  obtain ⟨_, hm, -⟩ := Bounded.Match_frame h4 hL h8 h16 hs
  have hb := BigEndian.eq_frame hL (by omega) hs
  generalize (c.bytes.drop 4).take (L - 4) = d at hm hb
  have hdl : d.length = L - 4 := by
    have := congrArg List.length hb
    simp at this; omega
  obtain ⟨v, hv⟩ := Option.isSome_iff_exists.mp (BigEndian.uint32_isSome (b := d) (by omega))
  have hv32 := BigEndian.uint32_lt hv
  obtain ⟨r, hpb, hr⟩ := Bounded.parsePayload_spec (by omega)
    (by simp only [maxStartupPayloadSize]; omega) hv
  rw [hdl] at hpb
  rw [hm, hpb] at h
  have hrt : r = true := by simp at h; exact h.1
  obtain ⟨c'', -, -, hpm⟩ := Pooled.Match_frame hp (by omega) hb
  have hdv := BigEndian.eq_putUint32_append (by omega) hv
  by_cases hssl : v = sslRequestCode
  · left
    refine ⟨c'', ?_⟩
    rw [hpm, hdv, Pooled.parsePayload_version hv32, if_pos hssl]
    rfl
  obtain ⟨hver, hpl⟩ := (hr.mp hrt).resolve_left fun h' => hssl h'.1
  obtain ⟨ps, hok, hps⟩ := paramList_iff.mp hpl
  rw [hps, encodeParams] at hdv
  have hpar := Pooled.parsePayload_closed hv32 hssl hver hok (t := [0]) rfl (by rw [← hdv]; omega)
  by_cases hne : ps = []
  · subst hne
    refine .inr ⟨v, c'', hver, hssl, ?_, by rw [hpm, hdv, hpar]; rfl⟩
    rw [hb, List.take_left' (by simp [hdv])]
    simp [hdv]
  · exact .inl ⟨c'', by rw [hpm, hdv, hpar]; simp [hne]⟩

theorem pooled_accepts_of_bounded_of_empty_params :
    Bounded.Match ⟨[[0, 0, 0, 9, 0, 3, 0, 0, 0]], .eof⟩ = some ((true, none), ⟨[], .eof⟩) ∧
      ((∃ c'', (Pooled.Match [] ⟨[[0, 0, 0, 9, 0, 3, 0, 0, 0]], .eof⟩).1 = some ((true, none), c'')) ∨
        ∃ v c'', 3 ≤ v >>> 16 ∧ v ≠ sslRequestCode ∧
          (⟨[[0, 0, 0, 9, 0, 3, 0, 0, 0]], .eof⟩ : Conn).bytes.take 9 =
            BigEndian.putUint32 9 ++ (BigEndian.putUint32 v ++ [0]) ∧
          (Pooled.Match [] ⟨[[0, 0, 0, 9, 0, 3, 0, 0, 0]], .eof⟩).1 = some ((false, none), c'')) :=
  have h : Bounded.Match ⟨[[0, 0, 0, 9, 0, 3, 0, 0, 0]], .eof⟩ = some ((true, none), ⟨[], .eof⟩) := by
    decide
  ⟨h, pooled_accepts_of_bounded Pooled.poolOk_nil h⟩

theorem Bounded.Match_accepts_frame {c : Conn} {L v : Nat}
    (hL : BigEndian.uint32 (c.bytes.take 4) = some L) (h8 : minMessageLength ≤ L)
    (h16 : L - 4 ≤ maxStartupPayloadSize) (hs : L ≤ c.bytes.length)
    (hv : BigEndian.uint32 ((c.bytes.drop 4).take (L - 4)) = some v)
    (hacc : (v = sslRequestCode ∧ L = 8) ∨
      (3 ≤ v >>> 16 ∧ ParamList (((c.bytes.drop 4).take (L - 4)).drop 4))) :
    ∃ c', Bounded.Match c = some ((true, none), c') := by
  simp only [minMessageLength] at h8
  obtain ⟨c', hm, -⟩ := Bounded.Match_frame (by omega) hL (by exact h8) h16 hs
  have hdl : ((c.bytes.drop 4).take (L - 4)).length = L - 4 := by
    simp only [List.length_take, List.length_drop]; omega
  obtain ⟨r, hpb, hr⟩ := Bounded.parsePayload_spec (by omega) (by rwa [hdl]) hv
  rw [hdl] at hpb hr
  have hrt : r = true := hr.mpr (hacc.imp_left fun h => ⟨h.1, by omega⟩)
  exact ⟨c', by rw [hm, hpb, hrt]; rfl⟩

/-- Whatever the pooled matcher accepts, the bounded one accepts, except frames of
three kinds that only the pooled one lets through: a declared length below 4 or
above 16388; the SSL request code with more payload after it; and a parameter
list whose closing NUL is missing or followed by more bytes. -/
theorem bounded_accepts_of_pooled {pool : List (List UInt8)} (hp : Pooled.PoolOk pool)
    {c c' : Conn} (h : (Pooled.Match pool c).1 = some ((true, none), c')) :
    (∃ c'', Bounded.Match c = some ((true, none), c'')) ∨
      ∃ L, BigEndian.uint32 (c.bytes.take 4) = some L ∧
        (L < 4 ∨ maxStartupPayloadSize < L - 4 ∨
          (8 < L ∧ L - 4 ≤ maxStartupPayloadSize ∧
            (c.bytes.drop 4).take 4 = BigEndian.putUint32 sslRequestCode) ∨
          (L - 4 ≤ maxStartupPayloadSize ∧ ∃ v params t, 3 ≤ v >>> 16 ∧ v ≠ sslRequestCode ∧
            params ≠ [] ∧ (∀ p ∈ params, PairOk p) ∧ t.takeWhile notNul = [] ∧ t ≠ [0] ∧
            (c.bytes.drop 4).take (L - 4) = BigEndian.putUint32 v ++ (encodePairs params ++ t))) := by
  rcases Pooled.Match_cases hp c with ⟨-, hm⟩ | ⟨L, -, -, -, hm⟩ | ⟨L, c₁, hL, hs, -, -, hm⟩
  · rw [hm] at h; cases h
  · rw [hm] at h; cases h
  obtain ⟨x, hx, hxc⟩ := Option.map_eq_some'.mp (hm ▸ h)
  cases hxc
  rcases Nat.lt_or_ge L 4 with hL4 | hL4
  · exact .inr ⟨L, hL, .inl hL4⟩
  by_cases h16 : maxStartupPayloadSize < L - 4
  · exact .inr ⟨L, hL, .inr (.inl h16)⟩
  simp only [maxStartupPayloadSize, not_lt] at h16
  -- in the bounded range the declared payload is the one both parsers read
  rw [sub32_of_le (by exact hL4) (BigEndian.uint32_lt hL)] at hx hs
  simp only [initMessageSizeLength] at hx hs
  have hdl : ((c.bytes.drop 4).take (L - 4)).length = L - 4 := by
    simp only [List.length_take, List.length_drop]; omega
  rcases Nat.lt_or_ge L 8 with h8 | h8
  · rw [Pooled.parsePayload_short (by omega)] at hx; cases hx
  have hframe := fun v hv hacc =>
    Bounded.Match_accepts_frame (c := c) (v := v) hL h8 (by exact h16) (by omega) hv hacc
  rcases Pooled.parsePayload_true_cases (by omega) hx with
    ⟨r, hr⟩ | ⟨v, params, t, hv, hssl, hver, hne, hok, ht, hd⟩
  · have hv : BigEndian.uint32 ((c.bytes.drop 4).take (L - 4)) = some sslRequestCode := by
      rw [hr]; exact BigEndian.uint32_putUint32_append (by decide) _
    by_cases hL8 : L = 8
    · exact .inl (hframe _ hv (.inl ⟨rfl, hL8⟩))
    refine .inr ⟨L, hL, .inr (.inr (.inl ⟨by omega, h16, ?_⟩))⟩
    have := congrArg (List.take 4) hr
    rwa [List.take_take, min_eq_left (by omega), List.take_left' (BigEndian.putUint32_length _)]
      at this
  · by_cases ht0 : t = [0]
    · have hv' : BigEndian.uint32 ((c.bytes.drop 4).take (L - 4)) = some v := by
        rw [hd]; exact BigEndian.uint32_putUint32_append hv _
      refine .inl (hframe v hv' (.inr ⟨hver, ?_⟩))
      rw [hd, List.drop_left' (BigEndian.putUint32_length _), ht0]
      exact paramList_encodeParams hok
    · exact .inr ⟨L, hL, .inr (.inr (.inr ⟨h16, v, params, t, hver, hssl, hne, hok, ht, ht0, hd⟩))⟩

theorem bounded_accepts_of_pooled_of_long_ssl :
    Pooled.PoolOk [] ∧
      (Pooled.Match [] ⟨[[0, 0, 0, 9, 4, 210, 22, 47, 0]], .eof⟩).1 = some ((true, none), ⟨[], .eof⟩) ∧
      ((∃ c'', Bounded.Match ⟨[[0, 0, 0, 9, 4, 210, 22, 47, 0]], .eof⟩ = some ((true, none), c'')) ∨
        ∃ L, BigEndian.uint32 ([0, 0, 0, 9, 4, 210, 22, 47, 0].take 4) = some L ∧
          (L < 4 ∨ maxStartupPayloadSize < L - 4 ∨
            (8 < L ∧ L - 4 ≤ maxStartupPayloadSize ∧
              ([0, 0, 0, 9, 4, 210, 22, 47, 0].drop 4).take 4 =
                BigEndian.putUint32 sslRequestCode) ∨
            (L - 4 ≤ maxStartupPayloadSize ∧ ∃ v params t, 3 ≤ v >>> 16 ∧ v ≠ sslRequestCode ∧
              params ≠ [] ∧ (∀ p ∈ params, PairOk p) ∧ t.takeWhile notNul = [] ∧ t ≠ [0] ∧
              ([0, 0, 0, 9, 4, 210, 22, 47, 0].drop 4).take (L - 4) =
                BigEndian.putUint32 v ++ (encodePairs params ++ t)))) :=
  have h : (Pooled.Match [] ⟨[[0, 0, 0, 9, 4, 210, 22, 47, 0]], .eof⟩).1 =
      some ((true, none), ⟨[], .eof⟩) := by decide
  ⟨Pooled.poolOk_nil, h, bounded_accepts_of_pooled Pooled.poolOk_nil h⟩

end L4Postgres
