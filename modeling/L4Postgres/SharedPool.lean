import L4Postgres.PooledFrame

/-! `headerPool` shared by the goroutines that run the pooled `Match` at once, one per
connection, in every interleaving of their statements and of the pool dropping items. -/

namespace L4Postgres.Pooled

abbrev Ptr := Nat

/-- Where a goroutine stands in `Match`: before `headerPool.Get()`, holding
`headerPtr`, after `io.ReadFull(cx, header)`, after `messageLength := ...`,
after `headerPool.Put(headerPtr)`, and returned (`none` for a panic). -/
inductive Pc where
  | start
  | got (p : Ptr)
  | headerRead (p : Ptr) (err : Option Error)
  | sized (p : Ptr) (messageLength : Nat)
  | payload (messageLength : Nat)
  | done (r : Option (Bool × Option Error))
  deriving DecidableEq, Repr

def Pc.held : Pc → Option Ptr
  | .got p | .headerRead p _ | .sized p _ => some p
  | _ => none

structure Goroutine where
  pc : Pc
  cx : Conn

/-- The buffers by address, the pool's free pointers, the first address `New`
has not yet allocated, and the goroutines. -/
structure Server (n : Nat) where
  heap : Ptr → List UInt8
  pool : List Ptr
  fresh : Ptr
  calls : Fin n → Goroutine

variable {n : Nat}

def Server.init (cx₀ : Fin n → Conn) : Server n :=
  ⟨fun _ => [], [], 0, fun i => ⟨.start, cx₀ i⟩⟩

/-- One statement of one goroutine's `Match`, or the pool dropping an item. -/
inductive Step : Server n → Server n → Prop
  | get {s : Server n} (i : Fin n) (p : Ptr) (hi : (s.calls i).pc = .start) (hp : p ∈ s.pool) :
      Step s { s with
        pool := s.pool.erase p
        calls := Function.update s.calls i ⟨.got p, (s.calls i).cx⟩ }
  | getNew {s : Server n} (i : Fin n) (hi : (s.calls i).pc = .start) :
      Step s { s with
        heap := Function.update s.heap s.fresh (List.replicate initMessageSizeLength 0)
        fresh := s.fresh + 1
        calls := Function.update s.calls i ⟨.got s.fresh, (s.calls i).cx⟩ }
  | readHeader {s : Server n} (i : Fin n) (p : Ptr) (hi : (s.calls i).pc = .got p) :
      Step s { s with
        heap := Function.update s.heap p ((s.calls i).cx.readFull (s.heap p)).1.1
        calls := Function.update s.calls i
          ⟨.headerRead p ((s.calls i).cx.readFull (s.heap p)).1.2.2,
            ((s.calls i).cx.readFull (s.heap p)).2⟩ }
  | putFailed {s : Server n} (i : Fin n) (p : Ptr) (e : Error)
      (hi : (s.calls i).pc = .headerRead p (some e)) :
      Step s { s with
        pool := p :: s.pool
        calls := Function.update s.calls i ⟨.done (some (false, some e)), (s.calls i).cx⟩ }
  | size {s : Server n} (i : Fin n) (p : Ptr) (hi : (s.calls i).pc = .headerRead p none) :
      Step s { s with
        calls := Function.update s.calls i
          ⟨match BigEndian.uint32 (s.heap p) with
            | some h => .sized p (sub32 h initMessageSizeLength)
            | none => .done none, (s.calls i).cx⟩ }
  | put {s : Server n} (i : Fin n) (p : Ptr) (m : Nat) (hi : (s.calls i).pc = .sized p m) :
      Step s { s with
        pool := p :: s.pool
        calls := Function.update s.calls i ⟨.payload m, (s.calls i).cx⟩ }
  | readData {s : Server n} (i : Fin n) (m : Nat) (hi : (s.calls i).pc = .payload m) :
      Step s { s with
        calls := Function.update s.calls i
          ⟨.done ((readPayload (s.calls i).cx m).map Prod.fst),
            ((s.calls i).cx.readFull (List.replicate m 0)).2⟩ }
  | drop {s : Server n} (p : Ptr) (hp : p ∈ s.pool) : Step s { s with pool := s.pool.erase p }

abbrev Server.Reachable (cx₀ : Fin n → Conn) (s : Server n) : Prop :=
  Relation.ReflTransGen Step (Server.init cx₀) s

/-- What goroutine `g` returns if it runs alone from where it stands. -/
def Goroutine.finish (heap : Ptr → List UInt8) (g : Goroutine) : Option (Bool × Option Error) :=
  match g.pc with
  | .start | .got _ => verdict g.cx.bytes g.cx.close
  | .headerRead _ (some e) => some (false, some e)
  | .headerRead p none =>
    match BigEndian.uint32 (heap p) with
    | some h => (readPayload g.cx (sub32 h initMessageSizeLength)).map Prod.fst
    | none => none
  | .sized _ m | .payload m => (readPayload g.cx m).map Prod.fst
  | .done r => r

theorem finish_congr {heap heap' : Ptr → List UInt8} {g : Goroutine}
    (h : ∀ p, g.pc.held = some p → heap' p = heap p) : g.finish heap' = g.finish heap := by
  rcases g with ⟨_ | p | ⟨p, _ | e⟩ | ⟨p, m⟩ | m | r, cx⟩
  case headerRead.none => simp only [Goroutine.finish, h p rfl]
  all_goals rfl

theorem finish_readHeader {heap : Ptr → List UInt8} {p : Ptr} (cx : Conn)
    (hp : (heap p).length = initMessageSizeLength) :
    (⟨.headerRead p (cx.readFull (heap p)).1.2.2, (cx.readFull (heap p)).2⟩ : Goroutine).finish
      (Function.update heap p (cx.readFull (heap p)).1.1) = verdict cx.bytes cx.close := by
  have hok : PoolOk [heap p] := List.forall_mem_singleton.mpr hp
  rw [← Match_fst_eq_verdict hok]
  rcases hr : cx.readFull (heap p) with ⟨⟨header, k, _ | e⟩, cx'⟩ <;>
    simp only [Match, headerPoolGet, hr, Goroutine.finish, Function.update_same, Option.map_some']
  rcases BigEndian.uint32 header with _ | h <;> simp only [Option.map_none']

structure Inv (cx₀ : Fin n → Conn) (s : Server n) : Prop where
  nodup : s.pool.Nodup
  pooled : ∀ p ∈ s.pool, p < s.fresh ∧ (s.heap p).length = initMessageSizeLength
  held : ∀ i p, (s.calls i).pc.held = some p →
    p ∉ s.pool ∧ p < s.fresh ∧ (s.heap p).length = initMessageSizeLength
  exclusive : ∀ i j p, (s.calls i).pc.held = some p → (s.calls j).pc.held = some p → i = j
  finish : ∀ i, (s.calls i).finish s.heap = verdict (cx₀ i).bytes (cx₀ i).close

theorem inv_init (cx₀ : Fin n → Conn) : Inv cx₀ (Server.init cx₀) where
  nodup := List.nodup_nil
  pooled _ h := absurd h (List.not_mem_nil _)
  held _ _ h := nomatch h
  exclusive _ _ _ h := nomatch h
  finish _ := rfl

section Preservation

variable {cx₀ : Fin n → Conn} {s : Server n}

theorem Inv.update (h : Inv cx₀ s) {i : Fin n} {g : Goroutine} {heap : Ptr → List UInt8}
    {pool : List Ptr} {fresh : Ptr} (hnodup : pool.Nodup)
    (hpool : ∀ p ∈ pool, p < fresh ∧ (heap p).length = initMessageSizeLength)
    (hg : ∀ p, g.pc.held = some p → p ∉ pool ∧ p < fresh ∧
      (heap p).length = initMessageSizeLength ∧ ∀ j ≠ i, (s.calls j).pc.held ≠ some p)
    (hothers : ∀ j ≠ i, ∀ p, (s.calls j).pc.held = some p →
      p ∉ pool ∧ p < fresh ∧ heap p = s.heap p)
    (hfinish : g.finish heap = (s.calls i).finish s.heap) :
    Inv cx₀ { s with
      heap := heap
      pool := pool
      fresh := fresh
      calls := Function.update s.calls i g } where
  nodup := hnodup
  pooled := hpool
  held j p hp := by
    dsimp only at hp ⊢
    by_cases hj : j = i
    · subst hj
      rw [Function.update_same] at hp
      obtain ⟨h1, h2, h3, -⟩ := hg p hp
      exact ⟨h1, h2, h3⟩
    · rw [Function.update_noteq hj] at hp
      obtain ⟨h1, h2, h3⟩ := hothers j hj p hp
      exact ⟨h1, h2, h3 ▸ (h.held j p hp).2.2⟩
  exclusive j k p hj hk := by
    dsimp only at hj hk
    simp only [Function.update_apply] at hj hk
    split_ifs at hj hk with hji hki
    · exact hji.trans hki.symm
    · exact absurd hk ((hg p hj).2.2.2 k hki)
    · exact absurd hj ((hg p hk).2.2.2 j hji)
    · exact h.exclusive j k p hj hk
  finish j := by
    dsimp only
    by_cases hj : j = i
    · subst hj
      rw [Function.update_same, hfinish, h.finish]
    · rw [Function.update_noteq hj, finish_congr fun p hp => (hothers j hj p hp).2.2, h.finish]

theorem Inv.set (h : Inv cx₀ s) {i : Fin n} {g : Goroutine}
    (hg : ∀ p, g.pc.held = some p → (s.calls i).pc.held = some p)
    (hfinish : g.finish s.heap = (s.calls i).finish s.heap) :
    Inv cx₀ { s with calls := Function.update s.calls i g } :=
  h.update h.nodup h.pooled
    (fun p hp => ⟨(h.held i p (hg p hp)).1, (h.held i p (hg p hp)).2.1,
      (h.held i p (hg p hp)).2.2, fun j hj hj' => hj (h.exclusive j i p hj' (hg p hp))⟩)
    (fun j _ p hp => ⟨(h.held j p hp).1, (h.held j p hp).2.1, rfl⟩) hfinish

theorem Inv.put (h : Inv cx₀ s) {i : Fin n} {p : Ptr} {g : Goroutine}
    (hi : (s.calls i).pc.held = some p) (hg : g.pc.held = none)
    (hfinish : g.finish s.heap = (s.calls i).finish s.heap) :
    Inv cx₀ { s with
      pool := p :: s.pool
      calls := Function.update s.calls i g } := by
  obtain ⟨hpool, hnext, hlen⟩ := h.held i p hi
  refine h.update (List.nodup_cons.mpr ⟨hpool, h.nodup⟩)
    (List.forall_mem_cons.mpr ⟨⟨hnext, hlen⟩, h.pooled⟩) (fun q hq => nomatch hg.symm.trans hq)
    (fun j hj q hq => ⟨fun hm => (List.mem_cons.mp hm).elim
      (fun e => hj (h.exclusive j i p (e ▸ hq) hi)) (h.held j q hq).1, (h.held j q hq).2.1, rfl⟩)
    hfinish

theorem Inv.step {s' : Server n} (h : Inv cx₀ s) (hs : Step s s') : Inv cx₀ s' := by
  cases hs with
  | get i p hi hp =>
    refine h.update (h.nodup.erase p) (fun q hq => h.pooled q (List.mem_of_mem_erase hq))
      (fun q hq => ?_) (fun j _ q hq => ?_) (by simp only [Goroutine.finish, hi])
    · cases hq
      exact ⟨h.nodup.not_mem_erase, (h.pooled p hp).1, (h.pooled p hp).2,
        fun j _ hj => (h.held j p hj).1 hp⟩
    · exact ⟨fun hm => (h.held j q hq).1 (List.mem_of_mem_erase hm), (h.held j q hq).2.1, rfl⟩
  | getNew i hi =>
    refine h.update h.nodup (fun q hq => ?_) (fun q hq => ?_) (fun j _ q hq => ?_)
      (by simp only [Goroutine.finish, hi])
    · rw [Function.update_noteq (h.pooled q hq).1.ne]
      exact ⟨Nat.lt_succ_of_lt (h.pooled q hq).1, (h.pooled q hq).2⟩
    · cases hq
      exact ⟨fun hm => lt_irrefl _ (h.pooled _ hm).1, Nat.lt_succ_self _,
        by rw [Function.update_same, List.length_replicate],
        fun j _ hj => lt_irrefl _ (h.held j _ hj).2.1⟩
    · exact ⟨(h.held j q hq).1, Nat.lt_succ_of_lt (h.held j q hq).2.1,
        Function.update_noteq (h.held j q hq).2.1.ne _ _⟩
  | readHeader i p hi =>
    have hp : (s.calls i).pc.held = some p := by rw [hi]; rfl
    obtain ⟨hpool, hnext, hlen⟩ := h.held i p hp
    refine h.update h.nodup (fun q hq => ?_) (fun q hq => ?_) (fun j hj q hq => ?_) ?_
    · rw [Function.update_noteq fun (e : q = p) => hpool (e ▸ hq)]
      exact h.pooled q hq
    · cases hq
      exact ⟨hpool, hnext, by rw [Function.update_same, readFull_length, hlen],
        fun j hj hj' => hj (h.exclusive j i p hj' hp)⟩
    · have hq' : q ≠ p := fun e => hj (h.exclusive j i p (e ▸ hq) hp)
      exact ⟨(h.held j q hq).1, (h.held j q hq).2.1, Function.update_noteq hq' _ _⟩
    · rw [finish_readHeader _ hlen]
      simp only [Goroutine.finish, hi]
  | putFailed i p e hi =>
    exact h.put (by rw [hi]; rfl) rfl (by simp only [Goroutine.finish, hi])
  | size i p hi =>
    rcases hu : BigEndian.uint32 (s.heap p) with _ | hh <;> simp only [hu]
    · exact h.set (fun _ hq => nomatch hq) (by simp only [Goroutine.finish, hi, hu])
    · refine h.set (fun q hq => ?_) (by simp only [Goroutine.finish, hi, hu])
      cases hq
      rw [hi]
      rfl
  | put i p m hi => exact h.put (by rw [hi]; rfl) rfl (by simp only [Goroutine.finish, hi])
  | readData i m hi => exact h.set (fun _ hq => nomatch hq) (by simp only [Goroutine.finish, hi])
  | drop p hp =>
    exact ⟨h.nodup.erase p, fun q hq => h.pooled q (List.mem_of_mem_erase hq),
      fun i q hq => ⟨fun hm => (h.held i q hq).1 (List.mem_of_mem_erase hm),
        (h.held i q hq).2.1, (h.held i q hq).2.2⟩, h.exclusive, h.finish⟩

end Preservation

theorem Server.Reachable.inv {cx₀ : Fin n → Conn} {s : Server n} (h : Server.Reachable cx₀ s) :
    Inv cx₀ s := by
  induction h with
  | refl => exact inv_init cx₀
  | tail _ hs ih => exact ih.step hs

/-- In every interleaving every buffer the pool holds or lends is the size of a
header, whichever buffers `Get` returned, however often `New` ran and whatever was
dropped; so `binary.BigEndian.Uint32(header)` never panics. -/
theorem reachable_buffers_header_sized {cx₀ : Fin n → Conn} {s : Server n}
    (h : Server.Reachable cx₀ s) :
    PoolOk (s.pool.map s.heap) ∧
      (∀ i p, (s.calls i).pc.held = some p → (s.heap p).length = initMessageSizeLength) ∧
      ∀ i p, (s.calls i).pc = .headerRead p none → ∃ v, BigEndian.uint32 (s.heap p) = some v := by
  have hheld : ∀ i p, (s.calls i).pc.held = some p → (s.heap p).length = initMessageSizeLength :=
    fun i p hi => (h.inv.held i p hi).2.2
  refine ⟨fun b hb => ?_, hheld, fun i p hi => Option.isSome_iff_exists.mp
    (BigEndian.uint32_isSome (le_of_eq (hheld i p (by rw [hi]; rfl)).symm))⟩
  obtain ⟨p, hp, rfl⟩ := List.mem_map.mp hb
  exact (h.inv.pooled p hp).2

theorem reachable_buffers_header_sized_of_new_while_pooled :
    ∃ s : Server 2, Server.Reachable ![⟨[[0, 0, 0, 13, 0, 3, 0, 0, 0x75, 0, 0x61, 0, 0]], .eof⟩,
        ⟨[[0, 0, 0], [9, 4, 210, 22, 47, 0]], .eof⟩] s ∧ s.pool = [0] ∧
      (s.calls 1).pc = .headerRead 1 none ∧ PoolOk (s.pool.map s.heap) ∧
      (∀ i p, (s.calls i).pc.held = some p → (s.heap p).length = initMessageSizeLength) ∧
      ∀ i p, (s.calls i).pc = .headerRead p none → ∃ v, BigEndian.uint32 (s.heap p) = some v :=
  have h : Server.Reachable ![⟨[[0, 0, 0, 13, 0, 3, 0, 0, 0x75, 0, 0x61, 0, 0]], .eof⟩,
      ⟨[[0, 0, 0], [9, 4, 210, 22, 47, 0]], .eof⟩] _ :=
    .tail (.tail (.tail (.tail (.tail (.tail .refl (.getNew 0 rfl)) (.readHeader 0 0 rfl))
      (.size 0 0 rfl)) (.put 0 0 9 rfl)) (.getNew 1 rfl)) (.readHeader 1 1 rfl)
  ⟨_, h, rfl, rfl, reachable_buffers_header_sized h⟩

/-- In every interleaving, a buffer between `Get` and `Put` is in no other
goroutine's hands and not in the pool: no goroutine reads a header another one
wrote. -/
theorem reachable_header_exclusive {cx₀ : Fin n → Conn} {s : Server n}
    (h : Server.Reachable cx₀ s) {i : Fin n} {p : Ptr} (hi : (s.calls i).pc.held = some p) :
    p ∉ s.pool ∧ ∀ j, (s.calls j).pc.held = some p → j = i :=
  ⟨(h.inv.held i p hi).1, fun j hj => h.inv.exclusive j i p hj hi⟩

theorem reachable_header_exclusive_of_reused_buffer :
    ∃ s : Server 2, Server.Reachable ![⟨[[0, 0, 0, 13, 0, 3, 0, 0, 0x75, 0, 0x61, 0, 0]], .eof⟩,
        ⟨[[0, 0, 0], [9, 4, 210, 22, 47, 0]], .eof⟩] s ∧ (s.calls 1).pc.held = some 0 ∧
      0 ∉ s.pool ∧ ∀ j, (s.calls j).pc.held = some 0 → j = 1 :=
  have h : Server.Reachable ![⟨[[0, 0, 0, 13, 0, 3, 0, 0, 0x75, 0, 0x61, 0, 0]], .eof⟩,
      ⟨[[0, 0, 0], [9, 4, 210, 22, 47, 0]], .eof⟩] _ :=
    .tail (.tail (.tail (.tail (.tail .refl (.getNew 0 rfl)) (.readHeader 0 0 rfl)) (.size 0 0 rfl))
      (.put 0 0 9 rfl)) (.get 1 0 rfl (.head _))
  ⟨_, h, rfl, reachable_header_exclusive h rfl⟩

/-- In every interleaving, a goroutine that has returned answered what `Match`
answers on its connection alone. -/
theorem reachable_done_eq_Match {cx₀ : Fin n → Conn} {s : Server n} (h : Server.Reachable cx₀ s)
    {i : Fin n} {r : Option (Bool × Option Error)} (hi : (s.calls i).pc = .done r) :
    r = (Match [] (cx₀ i)).1.map Prod.fst := by
  have hf := h.inv.finish i
  simp only [Goroutine.finish, hi] at hf
  rw [hf, Match_fst_eq_verdict poolOk_nil]

theorem reachable_done_eq_Match_of_reused_buffer :
    ∃ s : Server 2, Server.Reachable ![⟨[[0, 0, 0, 13, 0, 3, 0, 0, 0x75, 0, 0x61, 0, 0]], .eof⟩,
        ⟨[[0, 0, 0], [9, 4, 210, 22, 47, 0]], .eof⟩] s ∧ (s.calls 1).pc = .done (some (true, none)) ∧
      some (true, none) = (Match [] ⟨[[0, 0, 0], [9, 4, 210, 22, 47, 0]], .eof⟩).1.map Prod.fst :=
  have h : Server.Reachable ![⟨[[0, 0, 0, 13, 0, 3, 0, 0, 0x75, 0, 0x61, 0, 0]], .eof⟩,
      ⟨[[0, 0, 0], [9, 4, 210, 22, 47, 0]], .eof⟩] _ :=
    .tail (.tail (.tail (.tail (.tail (.tail (.tail (.tail .refl (.getNew 0 rfl))
      (.readHeader 0 0 rfl)) (.size 0 0 rfl)) (.put 0 0 9 rfl)) (.get 1 0 rfl (.head _)))
      (.readHeader 1 0 rfl)) (.size 1 0 rfl)) (.put 1 0 5 rfl)
  have h' := h.tail (.readData 1 5 rfl)
  ⟨_, h', by decide, reachable_done_eq_Match h' (i := 1) (by decide)⟩

theorem Match_cons (b : List UInt8) (rest : List (List UInt8)) (cx : Conn) :
    Match (b :: rest) cx = ((Match [b] cx).1, (Match [b] cx).2 ++ rest) := by
  simp only [Match, headerPoolGet]
  rcases cx.readFull b with ⟨⟨header, k, _ | e⟩, cx'⟩
  · rcases BigEndian.uint32 header with _ | h <;> simp
  · rfl

theorem Match_nil (cx : Conn) :
    Match [] cx = Match [List.replicate initMessageSizeLength 0] cx := rfl

theorem run_from_got (s : Server n) (i : Fin n) (p : Ptr) (hi : (s.calls i).pc = .got p)
    (hp : p ∉ s.pool) :
    ∃ s', Relation.ReflTransGen Step s s' ∧ (∀ j ≠ i, s'.calls j = s.calls j) ∧
      (s'.calls i).pc = .done ((Match [s.heap p] (s.calls i).cx).1.map Prod.fst) ∧
      s'.pool.map s'.heap = (Match [s.heap p] (s.calls i).cx).2 ++ s.pool.map s.heap := by
  have hmap : ∀ b, s.pool.map (Function.update s.heap p b) = s.pool.map s.heap := fun b =>
    List.map_congr_left fun q hq => Function.update_noteq (fun (e : q = p) => hp (e ▸ hq)) _ _
  have hr1 := Step.readHeader (s := s) i p hi
  rcases hr : (s.calls i).cx.readFull (s.heap p) with ⟨⟨header, k, _ | e⟩, cx'⟩ <;>
    simp only [hr] at hr1
  · have hr2 := Step.size (s := { s with
        heap := Function.update s.heap p header
        calls := Function.update s.calls i ⟨.headerRead p none, cx'⟩ }) i p
      (by simp only [Function.update_same])
    simp only [Function.update_same] at hr2
    rcases hu : BigEndian.uint32 header with _ | h <;> simp only [hu] at hr2
    · refine ⟨_, .tail (.single hr1) hr2, fun j hj => ?_, ?_, ?_⟩
      · simp only [Function.update_noteq hj]
      · simp [Match, headerPoolGet, hr, hu]
      · simp [Match, headerPoolGet, hr, hu, hmap]
    · refine ⟨_, (((Relation.ReflTransGen.single hr1).tail hr2).tail
        (.put i p (sub32 h initMessageSizeLength) (by simp only [Function.update_same]))).tail
        (.readData i (sub32 h initMessageSizeLength) (by simp only [Function.update_same])),
        fun j hj => ?_, ?_, ?_⟩
      · simp only [Function.update_noteq hj]
      · simp [Match, headerPoolGet, hr, hu]
      · simp [Match, headerPoolGet, hr, hu, hmap]
  · refine ⟨_, .tail (.single hr1) (.putFailed i p e (by simp only [Function.update_same])),
      fun j hj => ?_, ?_, ?_⟩
    · simp only [Function.update_noteq hj]
    · simp [Match, headerPoolGet, hr]
    · simp [Match, headerPoolGet, hr, hmap]

/-- One goroutine run alone, with `Get` taking the most recently put buffer, is
the sequential `Match` over the pool's buffers: it returns the same answer and
leaves the pool holding the same buffers, and no other goroutine moves. -/
theorem run_alone_refines_Match (s : Server n) (i : Fin n) (hi : (s.calls i).pc = .start)
    (hnodup : s.pool.Nodup) :
    ∃ s', Relation.ReflTransGen Step s s' ∧ (∀ j ≠ i, s'.calls j = s.calls j) ∧
      (s'.calls i).pc = .done ((Match (s.pool.map s.heap) (s.calls i).cx).1.map Prod.fst) ∧
      s'.pool.map s'.heap = (Match (s.pool.map s.heap) (s.calls i).cx).2 := by
  rcases hpool : s.pool with _ | ⟨p, rest⟩
  · obtain ⟨s', hrun, hframe, hpc, hmap⟩ := run_from_got { s with
        heap := Function.update s.heap s.fresh (List.replicate initMessageSizeLength 0)
        fresh := s.fresh + 1
        calls := Function.update s.calls i ⟨.got s.fresh, (s.calls i).cx⟩ } i s.fresh
      (by simp only [Function.update_same]) (by simp only [hpool, List.not_mem_nil, not_false_eq_true])
    refine ⟨s', .head (.getNew i hi) hrun,
      fun j hj => (hframe j hj).trans (Function.update_noteq hj _ _), ?_, ?_⟩
    · rw [hpc, List.map_nil, Match_nil]
      simp only [Function.update_same]
    · rw [hmap, List.map_nil, Match_nil]
      simp [hpool]
  · rw [hpool] at hnodup
    obtain ⟨s', hrun, hframe, hpc, hmap⟩ := run_from_got { s with
        pool := s.pool.erase p
        calls := Function.update s.calls i ⟨.got p, (s.calls i).cx⟩ } i p
      (by simp only [Function.update_same])
      (by simpa only [hpool, List.erase_cons_head] using (List.nodup_cons.mp hnodup).1)
    refine ⟨s', .head (.get i p hi (by simp [hpool])) hrun,
      fun j hj => (hframe j hj).trans (Function.update_noteq hj _ _), ?_, ?_⟩
    · rw [hpc, List.map_cons, Match_cons _ (rest.map s.heap)]
      simp only [Function.update_same]
    · rw [hmap, List.map_cons, Match_cons _ (rest.map s.heap)]
      simp [hpool]

theorem run_alone_refines_Match_of_reused_buffer :
    ∃ s : Server 2, Server.Reachable ![⟨[[0, 0, 0, 13, 0, 3, 0, 0, 0x75, 0, 0x61, 0, 0]], .eof⟩,
        ⟨[[0, 0, 0], [9, 4, 210, 22, 47, 0]], .eof⟩] s ∧ s.pool = [0] ∧
      (s.calls 1).pc = .start ∧ s.pool.Nodup ∧
      ∃ s', Relation.ReflTransGen Step s s' ∧ (∀ j ≠ 1, s'.calls j = s.calls j) ∧
        (s'.calls 1).pc = .done ((Match (s.pool.map s.heap) (s.calls 1).cx).1.map Prod.fst) ∧
        s'.pool.map s'.heap = (Match (s.pool.map s.heap) (s.calls 1).cx).2 :=
  have h : Server.Reachable ![⟨[[0, 0, 0, 13, 0, 3, 0, 0, 0x75, 0, 0x61, 0, 0]], .eof⟩,
      ⟨[[0, 0, 0], [9, 4, 210, 22, 47, 0]], .eof⟩] _ :=
    .tail (.tail (.tail (.tail .refl (.getNew 0 rfl)) (.readHeader 0 0 rfl)) (.size 0 0 rfl))
      (.put 0 0 9 rfl)
  ⟨_, h, rfl, rfl, List.nodup_singleton 0, run_alone_refines_Match _ 1 rfl (List.nodup_singleton 0)⟩

end L4Postgres.Pooled
