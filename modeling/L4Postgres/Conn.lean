import L4Postgres.Go

/-! The connection a matcher reads from, as the pieces `Read` returns and the error that
follows them, and `io.ReadFull` over it. -/

namespace L4Postgres

structure Conn where
  chunks : List (List UInt8)
  close : Error
  deriving DecidableEq, Repr

def Conn.bytes (c : Conn) : List UInt8 := c.chunks.flatten

/-- The `for n < min && err == nil` loop of `io.ReadAtLeast`, still wanting
`want` bytes. A `Read` returns the rest of the current piece, or as much of it
as the buffer holds, and fails with `close` once no piece is left. -/
def readLoop (close : Error) :
    Nat → List (List UInt8) → List UInt8 × Option Error × List (List UInt8)
  | 0, chunks => ([], none, chunks)
  | _ + 1, [] => ([], some close, [])
  | want + 1, chunk :: rest =>
    if want + 1 < chunk.length then
      (chunk.take (want + 1), none, chunk.drop (want + 1) :: rest)
    else
      let r := readLoop close (want + 1 - chunk.length) rest
      (chunk ++ r.1, r.2.1, r.2.2)

/-- `io.ReadFull(c, buf)`: the buffer after the call, the count `n`, and the
error as `io.ReadAtLeast` settles it. -/
def Conn.readFull (c : Conn) (buf : List UInt8) : (List UInt8 × Nat × Option Error) × Conn :=
  let r := readLoop c.close buf.length c.chunks
  let n := r.1.length
  let err := if buf.length ≤ n then none
    else if 0 < n ∧ r.2.1 = some .eof then some .unexpectedEOF else r.2.1
  ((r.1 ++ buf.drop n, n, err), { c with chunks := r.2.2 })

/-- The error `io.ReadFull` reports when the stream ends after `n` of the
wanted bytes. -/
def shortReadError (n : Nat) (close : Error) : Error :=
  if 0 < n ∧ close = .eof then .unexpectedEOF else close

theorem readLoop_of_le (close : Error) (want : Nat) (chunks : List (List UInt8))
    (h : want ≤ chunks.flatten.length) :
    (readLoop close want chunks).1 = chunks.flatten.take want ∧
      (readLoop close want chunks).2.1 = none ∧
      (readLoop close want chunks).2.2.flatten = chunks.flatten.drop want := by
  induction chunks generalizing want with
  | nil => cases want <;> simp_all [readLoop]
  | cons chunk rest ih =>
    cases want with
    | zero => simp [readLoop]
    | succ want =>
      simp only [List.flatten_cons, List.length_append] at h
      by_cases hc : want + 1 < chunk.length
      · simp [readLoop, hc, List.take_append_of_le_length, List.drop_append_of_le_length,
          Nat.le_of_lt hc]
      · obtain ⟨h1, h2, h3⟩ := ih (want + 1 - chunk.length) (by omega)
        simp only [readLoop, hc, if_false, List.flatten_cons, h1, h2, h3, true_and]
        constructor
        · rw [List.take_append_eq_append_take, List.take_of_length_le (l := chunk) (by omega)]
        · rw [List.drop_append_eq_append_drop, List.drop_of_length_le (l := chunk) (by omega),
            List.nil_append]

theorem readLoop_of_lt (close : Error) (want : Nat) (chunks : List (List UInt8))
    (h : chunks.flatten.length < want) :
    readLoop close want chunks = (chunks.flatten, some close, []) := by
  induction chunks generalizing want with
  | nil => cases want <;> simp_all [readLoop]
  | cons chunk rest ih =>
    cases want with
    | zero => simp at h
    | succ want =>
      simp only [List.flatten_cons, List.length_append] at h
      have hc : ¬ want + 1 < chunk.length := by omega
      simp [readLoop, hc, ih (want + 1 - chunk.length) (by omega)]

theorem readFull_of_le {c : Conn} {b : List UInt8} (h : b.length ≤ c.bytes.length) :
    (c.readFull b).1 = (c.bytes.take b.length, b.length, none) ∧
      (c.readFull b).2.bytes = c.bytes.drop b.length ∧ (c.readFull b).2.close = c.close := by
  obtain ⟨h1, -, h3⟩ := readLoop_of_le c.close b.length c.chunks h
  have hl : (c.chunks.flatten.take b.length).length = b.length := by
    simp only [List.length_take]; exact Nat.min_eq_left h
  simp [Conn.readFull, Conn.bytes, h1, h3, hl]

theorem readFull_eq_of_le {c : Conn} {b : List UInt8} (h : b.length ≤ c.bytes.length) :
    ∃ c', c.readFull b = ((c.bytes.take b.length, b.length, none), c') ∧
      c'.bytes = c.bytes.drop b.length ∧ c'.close = c.close := by
  obtain ⟨h1, h2, h3⟩ := readFull_of_le h
  exact ⟨_, Prod.ext h1 rfl, h2, h3⟩

theorem readFull_of_lt {c : Conn} {b : List UInt8} (h : c.bytes.length < b.length) :
    c.readFull b = ((c.bytes ++ b.drop c.bytes.length, c.bytes.length,
      some (shortReadError c.bytes.length c.close)), ⟨[], c.close⟩) := by
  have hr : readLoop c.close b.length c.chunks = (c.bytes, some c.close, []) :=
    readLoop_of_lt c.close b.length c.chunks h
  unfold Conn.readFull shortReadError
  rw [hr]
  by_cases hc : 0 < c.bytes.length ∧ c.close = .eof <;> simp [hc, Nat.not_le.mpr h]

theorem readFull_length (c : Conn) (b : List UInt8) : (c.readFull b).1.1.length = b.length := by
  rcases Nat.lt_or_ge c.bytes.length b.length with h | h
  · rw [readFull_of_lt h]; simp; omega
  · rw [(readFull_of_le h).1]; simp [h]

theorem readFull_snd_congr (c : Conn) {b b' : List UInt8} (h : b.length = b'.length) :
    (c.readFull b).2 = (c.readFull b').2 := by
  simp [Conn.readFull, h]

end L4Postgres
