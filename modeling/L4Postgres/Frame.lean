import L4Postgres.Match

/-! The bounded `Match` over a whole connection: what it returns and how much of the
stream it consumes in each of its cases, and the errors it reports. -/

namespace L4Postgres.Bounded

theorem Match_short_header {c : Conn} (h : c.bytes.length < 4) :
    Match c = some (readFailure "reading message length header: "
      (shortReadError c.bytes.length c.close), ⟨[], c.close⟩) := by
  have hr := readFull_of_lt (c := c) (b := List.replicate initMessageSizeLength 0)
    (by rw [List.length_replicate]; exact h)
  rw [Match, hr]

theorem Match_bad_length {c : Conn} {L : Nat} (h4 : 4 ≤ c.bytes.length)
    (hL : BigEndian.uint32 (c.bytes.take 4) = some L)
    (hbad : L < minMessageLength ∨ maxStartupPayloadSize < L - 4) :
    ∃ c', Match c = some ((false, none), c') ∧ c'.bytes = c.bytes.drop 4 ∧
      c'.close = c.close := by
  obtain ⟨c', hr, hb, hc⟩ := readFull_eq_of_le (c := c)
    (b := List.replicate initMessageSizeLength 0) (by rw [List.length_replicate]; exact h4)
  refine ⟨c', ?_, hb, hc⟩
  have hL32 := BigEndian.uint32_lt hL
  rw [Match, hr]
  simp only [List.length_replicate, initMessageSizeLength, Nat.lt_irrefl, if_false, hL,
    Option.some_bind]
  rcases hbad with hbad | hbad
  · simp [hbad]
  · simp only [minMessageLength] at hbad ⊢
    by_cases h8 : L < 8
    · simp [h8]
    · simp [h8, sub32_of_le (show 4 ≤ L by omega) hL32, hbad]

theorem Match_of_header {c : Conn} {L : Nat} (h4 : 4 ≤ c.bytes.length)
    (hL : BigEndian.uint32 (c.bytes.take 4) = some L) (h8 : minMessageLength ≤ L)
    (h16 : L - 4 ≤ maxStartupPayloadSize) :
    ∃ c', Match c = readPayload c' (L - 4) ∧ c'.bytes = c.bytes.drop 4 ∧ c'.close = c.close := by
  obtain ⟨c', hr, hb, hc⟩ := readFull_eq_of_le (c := c)
    (b := List.replicate initMessageSizeLength 0) (by rw [List.length_replicate]; exact h4)
  refine ⟨c', ?_, hb, hc⟩
  simp only [minMessageLength, maxStartupPayloadSize] at h8 h16
  rw [Match, hr]
  simp [List.length_replicate, initMessageSizeLength, hL, minMessageLength, maxStartupPayloadSize,
    Nat.not_lt.mpr h8, sub32_of_le (show 4 ≤ L by omega) (BigEndian.uint32_lt hL),
    Nat.not_lt.mpr h16, show L - 4 ≠ 0 by omega]

theorem Match_short_payload {c : Conn} {L : Nat} (h4 : 4 ≤ c.bytes.length)
    (hL : BigEndian.uint32 (c.bytes.take 4) = some L) (h8 : minMessageLength ≤ L)
    (h16 : L - 4 ≤ maxStartupPayloadSize) (hs : c.bytes.length < L) :
    Match c = some (readFailure ("reading message payload (declared length " ++
      toString (L - 4) ++ "): ") (shortReadError (c.bytes.length - 4) c.close),
      ⟨[], c.close⟩) := by
  obtain ⟨c', hm, hb, hc⟩ := Match_of_header h4 hL h8 h16
  have hr := readFull_of_lt (c := c') (b := List.replicate (L - 4) 0)
    (by rw [List.length_replicate, hb, List.length_drop]; omega)
  rw [hm, readPayload, hr, hb, hc, List.length_drop]

theorem Match_frame {c : Conn} {L : Nat} (h4 : 4 ≤ c.bytes.length)
    (hL : BigEndian.uint32 (c.bytes.take 4) = some L) (h8 : minMessageLength ≤ L)
    (h16 : L - 4 ≤ maxStartupPayloadSize) (hs : L ≤ c.bytes.length) :
    ∃ c', Match c = (parsePayload ((c.bytes.drop 4).take (L - 4)) (L - 4)).map
      (fun matched => ((matched, none), c')) ∧ c'.bytes = c.bytes.drop L ∧
      c'.close = c.close := by
  have hL4 : 4 ≤ L := by simp only [minMessageLength] at h8; omega
  obtain ⟨c', hm, hb, hc⟩ := Match_of_header h4 hL h8 h16
  obtain ⟨c'', hr, hb', hc'⟩ := readFull_eq_of_le (c := c') (b := List.replicate (L - 4) 0)
    (by rw [List.length_replicate, hb, List.length_drop]; omega)
  refine ⟨c'', ?_, by rw [hb', hb, List.length_replicate, List.drop_drop]; congr 1; omega, hc'.trans hc⟩
  rw [hm, readPayload, hr, hb, List.length_replicate]
  simp

/-- How far into the stream `Match` reads: the 4-byte header, and the whole
frame when its declared length `L` lies between 8 and 16388. -/
def frameExtent (bytes : List UInt8) : Nat :=
  match BigEndian.uint32 (bytes.take 4) with
  | some L => if L < 8 ∨ 16388 < L then 4 else L
  | none => 4

theorem frameExtent_of_bad {bytes : List UInt8} {L : Nat}
    (hL : BigEndian.uint32 (bytes.take 4) = some L)
    (hbad : L < minMessageLength ∨ maxStartupPayloadSize < L - 4) : frameExtent bytes = 4 := by
  simp only [minMessageLength, maxStartupPayloadSize] at hbad
  simp only [frameExtent, hL]
  rw [if_pos (by omega)]

theorem frameExtent_of_good {bytes : List UInt8} {L : Nat}
    (hL : BigEndian.uint32 (bytes.take 4) = some L) (h8 : minMessageLength ≤ L)
    (h16 : L - 4 ≤ maxStartupPayloadSize) : frameExtent bytes = L := by
  simp only [minMessageLength, maxStartupPayloadSize] at h8 h16
  simp only [frameExtent, hL]
  rw [if_neg (by omega)]

theorem four_le_frameExtent (bytes : List UInt8) : 4 ≤ frameExtent bytes := by
  unfold frameExtent
  split
  · split <;> omega
  · exact le_rfl

theorem header_cases (bytes : List UInt8) :
    bytes.length < 4 ∨
    (∃ L, 4 ≤ bytes.length ∧ BigEndian.uint32 (bytes.take 4) = some L ∧
      (L < minMessageLength ∨ maxStartupPayloadSize < L - 4)) ∨
    (∃ L, 4 ≤ bytes.length ∧ BigEndian.uint32 (bytes.take 4) = some L ∧
      minMessageLength ≤ L ∧ L - 4 ≤ maxStartupPayloadSize) := by
  rcases Nat.lt_or_ge bytes.length 4 with h | h
  · exact .inl h
  obtain ⟨L, hL⟩ := Option.isSome_iff_exists.mp
    (BigEndian.uint32_isSome (b := bytes.take 4) (by simp only [List.length_take]; omega))
  by_cases hbad : L < minMessageLength ∨ maxStartupPayloadSize < L - 4
  · exact .inr (.inl ⟨L, h, hL, hbad⟩)
  · exact .inr (.inr ⟨L, h, hL, by omega, by omega⟩)

theorem parsePayload_isSome {s : List UInt8} {L : Nat} (h8 : minMessageLength ≤ L)
    (h16 : L - 4 ≤ maxStartupPayloadSize) (hs : L ≤ s.length) :
    ∃ m, parsePayload ((s.drop 4).take (L - 4)) (L - 4) = some m := by
  simp only [minMessageLength] at h8
  have hlen : ((s.drop 4).take (L - 4)).length = L - 4 := by
    simp only [List.length_take, List.length_drop]; omega
  obtain ⟨v, hv⟩ := Option.isSome_iff_exists.mp
    (BigEndian.uint32_isSome (b := (s.drop 4).take (L - 4)) (by omega))
  obtain ⟨m, hm, -⟩ := parsePayload_spec (by omega) (by omega) hv
  rw [hlen] at hm
  exact ⟨m, hm⟩

theorem Match_consumes (c : Conn) :
    ∃ r c', Match c = some (r, c') ∧ c'.bytes = c.bytes.drop (frameExtent c.bytes) ∧
      c'.close = c.close := by
  have h4 := four_le_frameExtent c.bytes
  rcases header_cases c.bytes with h | ⟨L, h, hL, hbad⟩ | ⟨L, h, hL, h8, h16⟩
  · exact ⟨_, _, Match_short_header h, (List.drop_of_length_le (by omega)).symm, rfl⟩
  · obtain ⟨c', hm, hb, hc⟩ := Match_bad_length h hL hbad
    exact ⟨_, c', hm, by rw [hb, frameExtent_of_bad hL hbad], hc⟩
  · rw [frameExtent_of_good hL h8 h16]
    rcases Nat.lt_or_ge c.bytes.length L with hs | hs
    · exact ⟨_, _, Match_short_payload h hL h8 h16 hs,
        (List.drop_of_length_le (by omega)).symm, rfl⟩
    · obtain ⟨c', hm, hb, hc⟩ := Match_frame h hL h8 h16 hs
      obtain ⟨m, hp⟩ := parsePayload_isSome (s := c.bytes) h8 h16 hs
      exact ⟨_, c', by rw [hm, hp]; rfl, hb, hc⟩

theorem Match_fst_congr {c d : Conn} (hb : d.bytes = c.bytes) (hc : d.close = c.close) :
    (Match d).map Prod.fst = (Match c).map Prod.fst := by
  rcases header_cases c.bytes with h | ⟨L, h, hL, hbad⟩ | ⟨L, h, hL, h8, h16⟩
  · rw [Match_short_header h, Match_short_header (by rw [hb]; exact h), hb, hc]
  · obtain ⟨c', hm, -⟩ := Match_bad_length h hL hbad
    obtain ⟨d', hm', -⟩ := Match_bad_length (by rw [hb]; exact h) (by rw [hb]; exact hL) hbad
    rw [hm, hm']; rfl
  · rcases Nat.lt_or_ge c.bytes.length L with hs | hs
    · rw [Match_short_payload h hL h8 h16 hs,
        Match_short_payload (by rw [hb]; exact h) (by rw [hb]; exact hL) h8 h16 (by rw [hb]; exact hs),
        hb, hc]
    · obtain ⟨c', hm, -⟩ := Match_frame h hL h8 h16 hs
      obtain ⟨d', hm', -⟩ :=
        Match_frame (by rw [hb]; exact h) (by rw [hb]; exact hL) h8 h16 (by rw [hb]; exact hs)
      rw [hm, hm', hb]
      cases parsePayload ((c.bytes.drop 4).take (L - 4)) (L - 4) <;> rfl

theorem Match_fst_of_frame {c d : Conn} (hc : frameExtent c.bytes ≤ c.bytes.length)
    (hd : frameExtent c.bytes ≤ d.bytes.length)
    (ht : d.bytes.take (frameExtent c.bytes) = c.bytes.take (frameExtent c.bytes)) :
    (Match d).map Prod.fst = (Match c).map Prod.fst := by
  have h4 := four_le_frameExtent c.bytes
  have ht4 : d.bytes.take 4 = c.bytes.take 4 := by
    have := congrArg (List.take 4) ht
    rwa [List.take_take, List.take_take, Nat.min_eq_left h4] at this
  rcases header_cases c.bytes with h | ⟨L, h, hL, hbad⟩ | ⟨L, h, hL, h8, h16⟩
  · omega
  · obtain ⟨c', hm, -⟩ := Match_bad_length h hL hbad
    obtain ⟨d', hm', -⟩ := Match_bad_length (c := d) (by omega) (by rw [ht4]; exact hL) hbad
    rw [hm, hm']; rfl
  · rw [frameExtent_of_good hL h8 h16] at hc hd ht
    obtain ⟨c', hm, -⟩ := Match_frame h hL h8 h16 hc
    obtain ⟨d', hm', -⟩ := Match_frame (c := d) (by simp only [minMessageLength] at h8; omega)
      (by rw [ht4]; exact hL) h8 h16 hd
    have hdata : (d.bytes.drop 4).take (L - 4) = (c.bytes.drop 4).take (L - 4) := by
      rw [← List.drop_take, ← List.drop_take, ht]
    rw [hm, hm', hdata]
    cases parsePayload ((c.bytes.drop 4).take (L - 4)) (L - 4) <;> rfl

/-- `Match` asks the stream for the 4-byte header and, when the declared length
`L` lies between 8 and 16388, for the rest of the frame, and for nothing more:
on every split of the bytes into `Read` results it consumes exactly
`frameExtent` bytes (all of them, if there are fewer). Its answer depends only on
the bytes and how the stream ends, and once the frame is all there, only on the
frame. -/
theorem Match_reads_frame (c : Conn) :
    ∃ r c', Match c = some (r, c') ∧ c'.bytes = c.bytes.drop (frameExtent c.bytes) ∧
      c'.close = c.close ∧
      (∀ d : Conn, d.bytes = c.bytes → d.close = c.close → (Match d).map Prod.fst = some r) ∧
      (∀ d : Conn, frameExtent c.bytes ≤ c.bytes.length → frameExtent c.bytes ≤ d.bytes.length →
        d.bytes.take (frameExtent c.bytes) = c.bytes.take (frameExtent c.bytes) →
        (Match d).map Prod.fst = some r) := by
  obtain ⟨r, c', hm, hb, hc⟩ := Match_consumes c
  refine ⟨r, c', hm, hb, hc, fun d hdb hdc => ?_, fun d hc' hd ht => ?_⟩
  · rw [Match_fst_congr hdb hdc, hm]; rfl
  · rw [Match_fst_of_frame hc' hd ht, hm]; rfl

theorem readFailure_of_eof (context : String) (n : Nat) :
    readFailure context (shortReadError n .eof) = (false, none) := by
  unfold readFailure shortReadError
  split <;> simp [errorsIs]

theorem readFailure_of_fault (context : String) (n : Nat) {e : Error}
    (h1 : errorsIs e .eof = false) (h2 : errorsIs e .unexpectedEOF = false) :
    readFailure context (shortReadError n e) = (false, some (.wrap context e)) := by
  have he : e ≠ .eof := by rintro rfl; simp [errorsIs] at h1
  simp [readFailure, shortReadError, he, h1, h2]

theorem readFailure_eq_some_iff (context : String) (n : Nat) (close : Error) (r : Bool)
    (e : Error) :
    readFailure context (shortReadError n close) = (r, some e) ↔ r = false ∧
      errorsIs close .eof = false ∧ errorsIs close .unexpectedEOF = false ∧
      e = .wrap context close := by
  unfold readFailure shortReadError
  split
  · next h => rw [h.2]; simp [errorsIs]
  split
  · next h =>
    exact iff_of_false (by simp) fun ⟨_, h1, h2, _⟩ => by simp [h1, h2] at h
  · next h =>
    simp only [Bool.or_eq_true, not_or, Bool.not_eq_true] at h
    simp only [Prod.mk.injEq, Option.some.injEq, h.1, h.2, true_and]
    constructor <;> rintro ⟨rfl, rfl⟩ <;> exact ⟨rfl, rfl⟩

/-- The errors `Match` reports: the stream's own error, wrapped once with the text
of the read it broke, and only when `errors.Is` takes it for neither end-of-stream
error. The header's text when fewer than four bytes arrived; the payload's, with
the declared payload length `L - 4`, when the header passed the length checks and
the payload was cut short. -/
theorem Match_error_text (c : Conn) (r : Bool) (e : Error) :
    (∃ c', Match c = some ((r, some e), c')) ↔ r = false ∧ errorsIs c.close .eof = false ∧
      errorsIs c.close .unexpectedEOF = false ∧
      ((c.bytes.length < 4 ∧ e = .wrap "reading message length header: " c.close) ∨
       ∃ L, 4 ≤ c.bytes.length ∧ BigEndian.uint32 (c.bytes.take 4) = some L ∧
         minMessageLength ≤ L ∧ L - 4 ≤ maxStartupPayloadSize ∧ c.bytes.length < L ∧
         e = .wrap ("reading message payload (declared length " ++ toString (L - 4) ++ "): ")
           c.close) := by
  have hread : ∀ x (c₀ : Conn), (∃ c', some (x, c₀) = some ((r, some e), c')) ↔
      x = (r, some e) := fun x c₀ => by simp
  have hanswer : ∀ (m : Bool) (c₀ : Conn), ¬ ∃ c', some (((m, none), c₀) :
      (Bool × Option Error) × Conn) = some ((r, some e), c') := by
    rintro m c₀ ⟨c', h⟩; cases h
  rcases header_cases c.bytes with h | ⟨L, h4, hL, hbad⟩ | ⟨L, h4, hL, h8, h16⟩
  · have h4 : ¬ 4 ≤ c.bytes.length := by omega
    rw [Match_short_header h, hread, readFailure_eq_some_iff]
    simp [h, h4]
  · obtain ⟨c', hm, -⟩ := Match_bad_length h4 hL hbad
    rw [hm]
    refine iff_of_false (hanswer _ _) ?_
    rintro ⟨-, -, -, ⟨h', -⟩ | ⟨L', -, hL', h8, h16, -⟩⟩
    · omega
    · rw [hL] at hL'; cases hL'; omega
  rcases Nat.lt_or_ge c.bytes.length L with hs | hs
  · rw [Match_short_payload h4 hL h8 h16 hs, hread, readFailure_eq_some_iff]
    refine and_congr_right fun _ => and_congr_right fun _ => and_congr_right fun _ =>
      ⟨fun he => .inr ⟨L, h4, hL, h8, h16, hs, he⟩, ?_⟩
    rintro (⟨h', -⟩ | ⟨L', -, hL', -, -, -, he⟩)
    · omega
    · rw [hL] at hL'; cases hL'; exact he
  · obtain ⟨c', hm, -⟩ := Match_frame h4 hL h8 h16 hs
    obtain ⟨m, hp⟩ := parsePayload_isSome h8 h16 hs
    rw [hm, hp, Option.map_some']
    refine iff_of_false (hanswer _ _) ?_
    rintro ⟨-, -, -, ⟨h', -⟩ | ⟨L', -, hL', -, -, hs', -⟩⟩
    · omega
    · rw [hL] at hL'; cases hL'; omega

/-- On a stream that is still open, whose reads past its bytes fail with neither
end-of-stream error, a verdict reached without an error stays the same however
many more bytes arrive, however they arrive and however the stream then ends. -/
theorem Match_verdict_stable_of_open {c d : Conn} {r : Bool} {c' : Conn}
    (h1 : errorsIs c.close .eof = false) (h2 : errorsIs c.close .unexpectedEOF = false)
    (h : Match c = some ((r, none), c')) (hpre : c.bytes <+: d.bytes) :
    (Match d).map Prod.fst = some (r, none) := by
  have hfail : ∀ ctx n c₀, Match c = some (readFailure ctx (shortReadError n c.close), c₀) →
      False := by
    intro ctx n c₀ hm
    rw [hm, readFailure_of_fault ctx n h1 h2] at h
    cases h
  -- no read failed, so the whole frame was there
  have hc : frameExtent c.bytes ≤ c.bytes.length := by
    rcases header_cases c.bytes with hs | ⟨L, h4, hL, hbad⟩ | ⟨L, h4, hL, h8, h16⟩
    · exact (hfail _ _ _ (Match_short_header hs)).elim
    · rwa [frameExtent_of_bad hL hbad]
    · rw [frameExtent_of_good hL h8 h16]
      exact Nat.le_of_not_lt fun hs => hfail _ _ _ (Match_short_payload h4 hL h8 h16 hs)
  have ht : d.bytes.take (frameExtent c.bytes) = c.bytes.take (frameExtent c.bytes) := by
    obtain ⟨u, hu⟩ := hpre
    rw [← hu, List.take_append_of_le_length hc]
  rw [Match_fst_of_frame hc (hc.trans hpre.length_le) ht, h]
  rfl

theorem Match_verdict_stable_of_open_of_startup :
    errorsIs (.fault 1) .eof = false ∧ errorsIs (.fault 1) .unexpectedEOF = false ∧
      Match ⟨[[0, 0, 0, 13, 0, 3, 0, 0, 0x75, 0, 0x61, 0, 0]], .fault 1⟩ =
        some ((true, none), ⟨[], .fault 1⟩) ∧
      [0, 0, 0, 13, 0, 3, 0, 0, 0x75, 0, 0x61, 0, 0] <+:
        (⟨[[0, 0, 0, 13, 0, 3], [0, 0, 0x75, 0, 0x61, 0, 0, 0x51]], .eof⟩ : Conn).bytes ∧
      (Match ⟨[[0, 0, 0, 13, 0, 3], [0, 0, 0x75, 0, 0x61, 0, 0, 0x51]], .eof⟩).map Prod.fst =
        some (true, none) :=
  have h : Match ⟨[[0, 0, 0, 13, 0, 3, 0, 0, 0x75, 0, 0x61, 0, 0]], .fault 1⟩ =
      some ((true, none), ⟨[], .fault 1⟩) := by decide
  have hpre : [0, 0, 0, 13, 0, 3, 0, 0, 0x75, 0, 0x61, 0, 0] <+:
      (⟨[[0, 0, 0, 13, 0, 3], [0, 0, 0x75, 0, 0x61, 0, 0, 0x51]], .eof⟩ : Conn).bytes :=
    ⟨[0x51], rfl⟩
  ⟨rfl, rfl, h, hpre, Match_verdict_stable_of_open (d := ⟨[[0, 0, 0, 13, 0, 3],
    [0, 0, 0x75, 0, 0x61, 0, 0, 0x51]], .eof⟩) (by rfl) (by rfl) h hpre⟩

end L4Postgres.Bounded
