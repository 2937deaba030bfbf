import L4Postgres.Go

/-! The startup message on the wire: the protocol constants, the package test's
`buildStartupMessage`, and `ParamList`, the grammar of a parameter list. -/

namespace L4Postgres

def sslRequestCode : Nat := 80877103
def initMessageSizeLength : Nat := 4
def minMessageLength : Nat := 8
def minStartupPayloadLength : Nat := 5
def maxStartupPayloadSize : Nat := 16 * 1024

/-- The test's `buildStartupMessage`: the length header, the version, each
`key\0value\0`, and the closing NUL. The parameters are the map's pairs in the
order a `range` over it visits them. -/
def buildStartupMessage (version : Nat) (params : List (List UInt8 × List UInt8)) :
    List UInt8 :=
  let payload := BigEndian.putUint32 version ++
    (params.map fun (k, v) => k ++ [0] ++ v ++ [0]).flatten ++ [0]
  BigEndian.putUint32 (u32 (payload.length + initMessageSizeLength)) ++ payload

/-- A pair a client may send: a non-empty key, and no NUL in key or value. -/
def PairOk (p : List UInt8 × List UInt8) : Prop := p.1 ≠ [] ∧ 0 ∉ p.1 ∧ 0 ∉ p.2

instance (p : List UInt8 × List UInt8) : Decidable (PairOk p) :=
  inferInstanceAs (Decidable (_ ∧ _ ∧ _))

def encodePairs (params : List (List UInt8 × List UInt8)) : List UInt8 :=
  (params.map fun (k, v) => k ++ [0] ++ v ++ [0]).flatten

@[simp] theorem encodePairs_nil : encodePairs [] = [] := rfl

@[simp] theorem encodePairs_cons (k v : List UInt8) (params : List (List UInt8 × List UInt8)) :
    encodePairs ((k, v) :: params) = k ++ 0 :: (v ++ 0 :: encodePairs params) := by
  simp [encodePairs]

theorem length_le_encodePairs (params : List (List UInt8 × List UInt8)) :
    2 * params.length ≤ (encodePairs params).length := by
  induction params with
  | nil => simp
  | cons p ps ih => obtain ⟨k, v⟩ := p; simp; omega

def encodeParams (params : List (List UInt8 × List UInt8)) : List UInt8 :=
  encodePairs params ++ [0]

def startupPayload (version : Nat) (params : List (List UInt8 × List UInt8)) : List UInt8 :=
  BigEndian.putUint32 version ++ encodeParams params

theorem buildStartupMessage_eq (version : Nat) (params : List (List UInt8 × List UInt8)) :
    buildStartupMessage version params =
      BigEndian.putUint32 (u32 ((startupPayload version params).length + 4)) ++
        startupPayload version params := by
  simp [buildStartupMessage, startupPayload, encodeParams, encodePairs, initMessageSizeLength]

/-- Well-formed parameter lists. -/
inductive ParamList : List UInt8 → Prop
  | terminator : ParamList [0]
  | pair {k v rest : List UInt8} : k ≠ [] → 0 ∉ k → 0 ∉ v → ParamList rest →
      ParamList (k ++ 0 :: (v ++ 0 :: rest))

theorem nulFree_prefix_unique {a b s t : List UInt8} (ha : 0 ∉ a) (hb : 0 ∉ b)
    (h : a ++ 0 :: s = b ++ 0 :: t) : a = b ∧ s = t := by
  induction a generalizing b with
  | nil =>
    cases b with
    | nil => simpa using h
    | cons y b => simp only [List.nil_append, List.cons_append, List.cons.injEq] at h
                  exact absurd (h.1 ▸ List.mem_cons_self y b) hb
  | cons x a ih =>
    cases b with
    | nil => simp only [List.nil_append, List.cons_append, List.cons.injEq] at h
             exact absurd (h.1 ▸ List.mem_cons_self x a) ha
    | cons y b =>
      simp only [List.cons_append, List.cons.injEq] at h
      obtain ⟨rfl, hs⟩ := h
      have := ih (fun h => ha (List.mem_cons_of_mem _ h)) (fun h => hb (List.mem_cons_of_mem _ h)) hs
      exact ⟨by rw [this.1], this.2⟩

theorem ParamList.inv {xs : List UInt8} (h : ParamList xs) :
    xs = [0] ∨ ∃ k v rest, k ≠ [] ∧ 0 ∉ k ∧ 0 ∉ v ∧ ParamList rest ∧
      xs = k ++ 0 :: (v ++ 0 :: rest) := by
  cases h with
  | terminator => exact .inl rfl
  | pair hk h0k h0v hr => exact .inr ⟨_, _, _, hk, h0k, h0v, hr, rfl⟩

theorem ParamList.mem_zero {xs : List UInt8} (h : ParamList xs) : 0 ∈ xs := by
  rcases h.inv with rfl | ⟨k, v, rest, -, -, -, -, rfl⟩ <;> simp

theorem not_paramList_nil : ¬ ParamList [] := fun h => by simpa using h.mem_zero

theorem paramList_zero_cons_iff {ys : List UInt8} : ParamList (0 :: ys) ↔ ys = [] := by
  refine ⟨fun h => ?_, by rintro rfl; exact .terminator⟩
  rcases h.inv with h | ⟨k, v, rest, hk, h0k, -, -, h⟩
  · simpa using h
  · cases k with
    | nil => exact absurd rfl hk
    | cons x k => simp only [List.cons_append, List.cons.injEq] at h; simp_all

theorem paramList_pair_iff {k v zs : List UInt8} (hk : k ≠ []) (h0k : 0 ∉ k) (h0v : 0 ∉ v) :
    ParamList (k ++ 0 :: (v ++ 0 :: zs)) ↔ ParamList zs := by
  refine ⟨fun h => ?_, ParamList.pair hk h0k h0v⟩
  rcases h.inv with h | ⟨k', v', rest, -, h0k', h0v', hr, h⟩
  · have := congrArg List.length h
    simp at this; omega
  · obtain ⟨rfl, h'⟩ := nulFree_prefix_unique h0k h0k' h
    obtain ⟨rfl, rfl⟩ := nulFree_prefix_unique h0v h0v' h'
    exact hr

theorem not_paramList_key_end {k : List UInt8} (hk : k ≠ []) (h0k : 0 ∉ k) :
    ¬ ParamList (k ++ [0]) := by
  intro h
  rcases h.inv with h | ⟨k', v', rest, -, h0k', -, -, h⟩
  · have := congrArg List.length h
    simp at this; exact hk this
  · have := (nulFree_prefix_unique h0k h0k' h).2
    simp at this

theorem not_paramList_value_open {k v : List UInt8} (hk : k ≠ []) (h0k : 0 ∉ k)
    (h0v : 0 ∉ v) : ¬ ParamList (k ++ 0 :: v) := by
  intro h
  rcases h.inv with h | ⟨k', v', rest, -, h0k', -, -, h⟩
  · cases k with
    | nil => exact hk rfl
    | cons x k => simp at h
  · obtain ⟨-, rfl⟩ := nulFree_prefix_unique h0k h0k' h
    simp at h0v

theorem not_paramList_of_nulFree {xs : List UInt8} (h : 0 ∉ xs) : ¬ ParamList xs :=
  fun hp => h hp.mem_zero

theorem paramList_encodePairs_append_iff {params : List (List UInt8 × List UInt8)}
    (h : ∀ p ∈ params, PairOk p) {t : List UInt8} :
    ParamList (encodePairs params ++ t) ↔ ParamList t := by
  induction params with
  | nil => rfl
  | cons p ps ih =>
    obtain ⟨hk, h0k, h0v⟩ := h p (List.mem_cons_self p ps)
    obtain ⟨k, v⟩ := p
    simp only [encodePairs_cons, List.append_assoc, List.cons_append]
    rw [paramList_pair_iff hk h0k h0v, ih fun q hq => h q (List.mem_cons_of_mem _ hq)]

theorem paramList_encodeParams {params : List (List UInt8 × List UInt8)}
    (h : ∀ p ∈ params, PairOk p) : ParamList (encodeParams params) :=
  (paramList_encodePairs_append_iff h).mpr .terminator

/-- The grammar holds exactly of the parameter lists the encoder writes. -/
theorem paramList_iff {xs : List UInt8} :
    ParamList xs ↔ ∃ params, (∀ p ∈ params, PairOk p) ∧ xs = encodeParams params := by
  refine ⟨fun h => ?_, fun ⟨params, hp, he⟩ => he ▸ paramList_encodeParams hp⟩
  induction h with
  | terminator => exact ⟨[], by simp, rfl⟩
  | pair hk h0k h0v _ ih =>
    obtain ⟨params, hp, rfl⟩ := ih
    rename_i k v _
    refine ⟨(k, v) :: params, ?_, by simp [encodeParams]⟩
    rintro q (_ | ⟨_, hq⟩)
    · exact ⟨hk, h0k, h0v⟩
    · exact hp q hq

end L4Postgres
