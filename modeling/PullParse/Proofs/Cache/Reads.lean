import PullParse.Parser.Basic
import Mathlib.Tactic

/-!
# Reads of a cache, and positions in range

Whatever the runs over a cache do, all that ever happens to it is that it is
read. A cache grows to another one when some reads lead from the first to the
second. A state is in range when it stands on a cached token or right behind the
last one, and not behind an end token. Such a state stays in range however the
cache grows, and a read at its position either finds a cached token or pulls:
no token is ever skipped.
-/

namespace PullParse

namespace Cache

/-- The cache after reads at the given positions, in this order. -/
def reads (c : Cache) (positions : List Int) : Cache :=
  positions.foldl (fun c k => (c.tokenAt k).2) c

/-- Some reads lead from the first cache to the second. -/
def GrowsTo (c c' : Cache) : Prop := ∃ positions, c.reads positions = c'

/-- The cache reads this producer, from its next answer on. -/
def Reached (c : Cache) (producer : Producer) : Prop := (fresh producer).GrowsTo c

theorem GrowsTo.refl (c : Cache) : c.GrowsTo c := ⟨[], rfl⟩

theorem GrowsTo.trans {c c' c'' : Cache} (h : c.GrowsTo c') (h' : c'.GrowsTo c'') :
    c.GrowsTo c'' := by
  obtain ⟨ks, rfl⟩ := h
  obtain ⟨ls, rfl⟩ := h'
  exact ⟨ks ++ ls, by simp [reads, List.foldl_append]⟩

theorem growsTo_tokenAt (c : Cache) (k : Int) : c.GrowsTo (c.tokenAt k).2 := ⟨[k], rfl⟩

/-! ## Single reads -/

/-- A pull appends the token that the producer answers with, if it does. -/
theorem pull_eq (c : Cache) :
    c.pull =
      match c.producer.next.1.bind Token.ofPair with
      | .error fault => (.error fault, ⟨c.tokens, c.pulls, c.producer.next.2⟩)
      | .ok token => (.ok token, ⟨c.tokens.push token, c.pulls + 1, c.producer.next.2⟩) := by
  cases c
  rfl

theorem terminated_iff {c : Cache} :
    c.terminated = true ↔ ∃ token, c.tokens.back? = some token ∧ token.isEof = true := by
  cases h : c.tokens.back? <;> simp [terminated, endToken?, h]

theorem endToken?_eq_none {c : Cache} (h : c.terminated = false) : c.endToken? = none := by
  simpa [terminated] using h

theorem tokenAt_of_lt {c : Cache} {k : Int} (h : k < c.length) :
    c.tokenAt k = (c.cached k, c) := by
  rw [tokenAt, if_pos h]

theorem tokenAt_length {c : Cache} (h : c.terminated = false) :
    c.tokenAt c.length = c.pull := by
  rw [tokenAt, if_neg (lt_irrefl _), endToken?_eq_none h]
  exact if_pos rfl

/-- A read leaves the cache alone unless it is one at the end of a cache without end token. -/
theorem tokenAt_cases (c : Cache) (k : Int) :
    (c.tokenAt k).2 = c ∨ (c.terminated = false ∧ k = c.length ∧ c.tokenAt k = c.pull) := by
  unfold tokenAt
  split
  · exact Or.inl rfl
  · cases he : c.endToken? with
    | some token => exact Or.inl rfl
    | none =>
        by_cases hk : k = c.length
        · exact Or.inr ⟨by simp [terminated, he], hk, by simp [hk]⟩
        · exact Or.inl (by simp [hk])

/-- A read appends at most one token, and none behind an end token. -/
theorem tokens_tokenAt (c : Cache) (k : Int) :
    (c.tokenAt k).2.tokens = c.tokens ∨
      (c.terminated = false ∧ ∃ token, (c.tokenAt k).2.tokens = c.tokens.push token) := by
  rcases c.tokenAt_cases k with h | ⟨ht, -, h⟩
  · exact Or.inl (congrArg tokens h)
  · rw [h, pull_eq]
    cases c.producer.next.1.bind Token.ofPair with
    | error fault => exact Or.inl rfl
    | ok token => exact Or.inr ⟨ht, token, rfl⟩

/-- Cached tokens stay where they are. -/
theorem GrowsTo.getElem?_tokens {c c' : Cache} (h : c.GrowsTo c') {i : Nat} {token : Token}
    (hi : c.tokens[i]? = some token) : c'.tokens[i]? = some token := by
  obtain ⟨ks, rfl⟩ := h
  induction ks generalizing c with
  | nil => exact hi
  | cons k ks ih =>
      refine ih (c := (c.tokenAt k).2) ?_
      rcases c.tokens_tokenAt k with h | ⟨-, t, h⟩
      · rw [h, hi]
      · have hlt : i < c.tokens.size := (Array.getElem?_eq_some_iff.mp hi).1
        rw [h, Array.getElem?_push_lt hlt, ← Array.getElem?_eq_getElem hlt, hi]

end Cache

/-! ## States in range -/

/-- A state stands on a cached token or right behind the last one, and not behind an end token. -/
def State.InRange (s : State) (c : Cache) : Prop :=
  0 ≤ s.position ∧ s.position ≤ c.length ∧
    (c.terminated = true → s.position ≤ (c.length : Int) - 1)

namespace State

instance (s : State) (c : Cache) : Decidable (s.InRange c) :=
  inferInstanceAs (Decidable (_ ∧ _ ∧ _))

theorem inRange_start (c : Cache) (userData : Value) : InRange ⟨0, userData⟩ c := by
  refine ⟨le_rfl, Int.natCast_nonneg _, fun h => ?_⟩
  obtain ⟨token, hb, -⟩ := Cache.terminated_iff.mp h
  have hpos : 0 < c.tokens.size := by
    rcases Nat.eq_zero_or_pos c.tokens.size with h0 | h0
    · simp [Array.back?, h0] at hb
    · exact h0
  simp only [Cache.length]
  omega

/-- Being in range depends on the position alone. -/
theorem InRange.withUserData {s : State} {c : Cache} (h : s.InRange c) (u : Value) :
    InRange { s with userData := u } c := h

/-- One read keeps every state in range. -/
theorem InRange.tokenAt {s : State} {c : Cache} (h : s.InRange c) (k : Int) :
    s.InRange (c.tokenAt k).2 := by
  obtain ⟨h0, hle, hterm⟩ := h
  rcases c.tokens_tokenAt k with heq | ⟨-, token, heq⟩
  · have hlen : (c.tokenAt k).2.length = c.length := by simp [Cache.length, heq]
    refine ⟨h0, by rw [hlen]; exact hle, fun ht => ?_⟩
    rw [hlen]
    refine hterm (Cache.terminated_iff.mpr ?_)
    rw [← heq]
    exact Cache.terminated_iff.mp ht
  · have hlen : (c.tokenAt k).2.length = c.length + 1 := by simp [Cache.length, heq]
    refine ⟨h0, ?_, fun _ => ?_⟩ <;> rw [hlen] <;> push_cast <;> omega

/-- A state in range stays in range however the cache grows. -/
theorem InRange.grows {s : State} {c c' : Cache} (h : s.InRange c) (hg : c.GrowsTo c') :
    s.InRange c' := by
  obtain ⟨ks, rfl⟩ := hg
  induction ks generalizing c with
  | nil => exact h
  | cons k ks ih => exact ih (h.tokenAt k)

/-- A state in range is behind the last token only while the cache can still grow. -/
theorem InRange.lt_or_eq {s : State} {c : Cache} (h : s.InRange c) :
    s.position < c.length ∨ (s.position = c.length ∧ c.terminated = false) := by
  obtain ⟨-, hle, hterm⟩ := h
  rcases lt_or_eq_of_le hle with hlt | heq
  · exact Or.inl hlt
  · refine Or.inr ⟨heq, ?_⟩
    cases ht : c.terminated with
    | false => rfl
    | true => have := hterm ht; omega

end State

namespace Cache

theorem cached_of_lt {c : Cache} {k : Int} (h0 : 0 ≤ k) (hlt : k < c.length) :
    ∃ token, c.tokens[k.toNat]? = some token ∧ c.cached k = .ok token := by
  have hsize : k.toNat < c.tokens.size := by simp only [length] at hlt; omega
  refine ⟨c.tokens[k.toNat], Array.getElem?_eq_getElem hsize, ?_⟩
  have hword : ¬k < -(Elements.maxWord : Int) - 1 := by simp only [Elements.maxWord]; omega
  simp [cached, hword, not_lt.mpr h0, Array.getElem?_eq_getElem hsize]

/-- At a state in range a read finds a cached token or pulls the next one. -/
theorem tokenAt_of_inRange {c : Cache} {s : State} (h : s.InRange c) :
    (∃ token, c.tokens[s.position.toNat]? = some token ∧
        c.tokenAt s.position = (.ok token, c)) ∨
      (s.position = c.length ∧ c.terminated = false ∧ c.tokenAt s.position = c.pull) := by
  rcases h.lt_or_eq with hlt | ⟨heq, ht⟩
  · obtain ⟨token, hget, hc⟩ := cached_of_lt h.1 hlt
    exact Or.inl ⟨token, hget, by rw [tokenAt_of_lt hlt, hc]⟩
  · exact Or.inr ⟨heq, ht, by rw [heq]; exact tokenAt_length ht⟩

/-- A token that was read at a state in range is cached there. -/
theorem getElem?_of_tokenAt {c c' : Cache} {s : State} {token : Token} (h : s.InRange c)
    (hr : c.tokenAt s.position = (.ok token, c')) : c'.tokens[s.position.toNat]? = some token := by
  rcases tokenAt_of_inRange h with ⟨tok, hget, ht⟩ | ⟨hpos, -, ht⟩
  · rw [ht] at hr
    cases hr
    exact hget
  · rw [ht, pull_eq] at hr
    cases hn : c.producer.next.1.bind Token.ofPair with
    | error fault => simp [hn] at hr
    | ok tok =>
        simp only [hn, Prod.mk.injEq, Except.ok.injEq] at hr
        obtain ⟨rfl, rfl⟩ := hr
        simp [hpos, length]

/-- Reading a second time at a position finds the same token and leaves the cache alone. -/
theorem tokenAt_again {c c' : Cache} {s : State} {token : Token} (h : s.InRange c)
    (hr : c.tokenAt s.position = (.ok token, c')) : c'.tokenAt s.position = (.ok token, c') := by
  have hget := getElem?_of_tokenAt h hr
  have hlt : s.position < c'.length := by
    have := (Array.getElem?_eq_some_iff.mp hget).1
    simp only [length]
    omega
  obtain ⟨tok, hget', hc⟩ := cached_of_lt h.1 hlt
  rw [tokenAt_of_lt hlt, hc, Option.some.inj (hget'.symm.trans hget)]

/-- The state one further on is in range if the token passed is not the end token. -/
theorem inRange_next {c : Cache} {s : State} {token : Token} (h : s.InRange c)
    (hget : c.tokens[s.position.toNat]? = some token) (he : token.isEof = false) (u : Value) :
    State.InRange ⟨s.position + 1, u⟩ c := by
  have hlt := (Array.getElem?_eq_some_iff.mp hget).1
  have h0 := h.1
  refine ⟨by simp only; omega, by simp only [length]; omega, fun ht => ?_⟩
  -- the end token is the last one, so the token passed lies before it
  obtain ⟨last, hb, hl⟩ := terminated_iff.mp ht
  have hne : s.position.toNat ≠ c.tokens.size - 1 := by
    intro heq
    rw [Array.back?, ← heq, hget] at hb
    cases hb
    simp [he] at hl
  simp only [length]
  omega

end Cache

end PullParse
