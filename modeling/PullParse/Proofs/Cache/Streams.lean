import PullParse.Proofs.Cache.Reads

/-!
# Streams and the caches over them

The answers of a well-behaved producer, numbered from zero, are a stream of
tokens; what comes behind its first end token is never asked for. A cache over
such a producer holds a prefix of the stream and nothing else, so its length
alone says everything about it.
-/

namespace PullParse

/-- Tokens by index. -/
abbrev TokenStream : Type := Nat → Token

/-- No end token stands before the index. -/
def TokenStream.Open (t : TokenStream) (k : Nat) : Prop := ∀ j < k, (t j).isEof = false

namespace Producer

/-- The producer after some calls. -/
def after (p : Producer) : Nat → Producer
  | 0 => p
  | n + 1 => (p.after n).next.2

theorem calls_after (p : Producer) (n : Nat) : (p.after n).calls = p.calls + n := by
  induction n with
  | zero => rfl
  | succ n ih => simp [after, next, ih, Nat.add_assoc]

/-- Up to the first end token every answer is a pair or a token, and they are those of the
stream. -/
def Delivers (p : Producer) (t : TokenStream) : Prop :=
  ∀ k, t.Open k → (p.after k).next.1.bind Token.ofPair = .ok (t k)

end Producer

/-- The tokens of a list, and end tokens behind them. -/
def TokenStream.ofList (tokens : List Token) : TokenStream := fun k => (tokens[k]?).getD Token.eof

theorem Token.ofPair_toPair (token : Token) : ofPair token.toPair = .ok token := rfl

/-- The producer that answers with the tokens of a list, and with end tokens afterwards. -/
def Producer.ofTokens (tokens : List Token) : Producer :=
  .ofAnswers (tokens.map fun token => .ok token.toPair).toArray

theorem Producer.after_ofTokens (tokens : List Token) (n : Nat) :
    (ofTokens tokens).after n = ⟨(ofTokens tokens).source, n⟩ := by
  induction n with
  | zero => rfl
  | succ n ih =>
      rw [after, ih]
      rfl

theorem Producer.delivers_ofTokens (tokens : List Token) :
    (ofTokens tokens).Delivers (.ofList tokens) := by
  intro k _
  rw [after_ofTokens, TokenStream.ofList]
  simp only [next, ofTokens, ofAnswers, Source.call, List.getElem?_toArray, List.getElem?_map]
  cases tokens[k]? with
  | none => rfl
  | some token => exact token.ofPair_toPair

/-! ## Caches over a stream -/

/-- The cache holds a prefix of the stream that ends with the first end token at the latest, and
its producer has been called for that prefix and no further. -/
structure Cache.Holds (c : Cache) (p : Producer) (t : TokenStream) : Prop where
  tokens : c.tokens.toList = (List.range c.length).map t
  pulls : c.pulls = c.length
  producer : c.producer = p.after c.length
  isOpen : t.Open (c.length - 1)

namespace Cache.Holds

variable {c : Cache} {p : Producer} {t : TokenStream}

theorem fresh (p : Producer) (t : TokenStream) : (Cache.fresh p).Holds p t :=
  ⟨rfl, rfl, rfl, fun j hj => absurd hj (Nat.not_lt_zero j)⟩

theorem getElem?_tokens (h : c.Holds p t) {i : Nat} (hi : i < c.length) :
    c.tokens[i]? = some (t i) := by
  rw [← Array.getElem?_toList, h.tokens]
  simp [hi]

/-- The end token ends the prefix that is held. -/
theorem terminated_iff (h : c.Holds p t) :
    c.terminated = true ↔ 0 < c.length ∧ (t (c.length - 1)).isEof = true := by
  rw [Cache.terminated_iff, Array.back?]
  rcases Nat.eq_zero_or_pos c.length with h0 | h0
  · have : c.tokens.size = 0 := h0
    simp [h0, this]
  · have hget := h.getElem?_tokens (Nat.sub_lt h0 Nat.one_pos)
    have hsize : c.tokens.size - 1 = c.length - 1 := rfl
    rw [hsize, hget]
    simp [h0]

theorem isOpen_length (h : c.Holds p t) (ht : c.terminated = false) : t.Open c.length := by
  intro j hj
  rcases Nat.lt_or_ge j (c.length - 1) with hlt | hge
  · exact h.isOpen j hlt
  · have hj' : j = c.length - 1 := by omega
    have hnot : ¬(0 < c.length ∧ (t (c.length - 1)).isEof = true) := by
      rw [← h.terminated_iff, ht]
      simp
    rw [hj']
    exact Bool.eq_false_iff.mpr fun he => hnot ⟨by omega, he⟩

/-- A pull over a well-behaved producer appends the next token of the stream. -/
theorem pull (hp : p.Delivers t) (h : c.Holds p t) (ht : c.terminated = false) :
    ∃ c', c.pull = (.ok (t c.length), c') ∧ c'.Holds p t ∧ c'.length = c.length + 1 := by
  have hopen := h.isOpen_length ht
  have hnext := hp c.length hopen
  rw [← h.producer] at hnext
  refine ⟨⟨c.tokens.push (t c.length), c.pulls + 1, c.producer.next.2⟩, ?_, ?_, ?_⟩
  · rw [Cache.pull_eq, hnext]
  · have hlen : (c.tokens.push (t c.length)).size = c.length + 1 := by simp [Cache.length]
    constructor
    · simp [Cache.length, List.range_succ, h.tokens]
    · simp [Cache.length, h.pulls]
    · simp only [Cache.length] at hlen ⊢
      rw [hlen, h.producer]
      rfl
    · simp only [Cache.length] at hlen ⊢
      rw [hlen]
      exact hopen
  · simp [Cache.length]

theorem tokenAt (hp : p.Delivers t) (h : c.Holds p t) (k : Int) : (c.tokenAt k).2.Holds p t := by
  rcases c.tokenAt_cases k with heq | ⟨ht, -, heq⟩
  · rw [heq]
    exact h
  · obtain ⟨c', hpull, hc', -⟩ := h.pull hp ht
    rw [heq, hpull]
    exact hc'

theorem grows (hp : p.Delivers t) (h : c.Holds p t) {c' : Cache} (hg : c.GrowsTo c') :
    c'.Holds p t := by
  obtain ⟨ks, rfl⟩ := hg
  induction ks generalizing c with
  | nil => exact h
  | cons k ks ih => exact ih (h.tokenAt hp k)

/-- A read at a state in range finds the token of the stream, and fills the cache up to it. -/
theorem tokenAt_of_inRange (hp : p.Delivers t) (h : c.Holds p t) {s : State} (hs : s.InRange c) :
    ∃ c', c.tokenAt s.position = (.ok (t s.position.toNat), c') ∧ c'.Holds p t ∧
      c'.length = max c.length (s.position.toNat + 1) := by
  rcases Cache.tokenAt_of_inRange hs with ⟨token, hget, hr⟩ | ⟨hpos, ht, hr⟩
  · have hlt : s.position.toNat < c.length := (Array.getElem?_eq_some_iff.mp hget).1
    rw [h.getElem?_tokens hlt] at hget
    cases hget
    exact ⟨c, hr, h, (max_eq_left hlt).symm⟩
  · obtain ⟨c', hpull, hc', hlen⟩ := h.pull hp ht
    refine ⟨c', ?_, hc', ?_⟩
    · rw [hr, hpull, hpos]
      rfl
    · rw [hlen, hpos]
      simp

/-- States in range of a shorter prefix are in range of a longer one. -/
theorem inRange_mono (h : c.Holds p t) {c' : Cache} (h' : c'.Holds p t)
    (hle : c.length ≤ c'.length) {s : State} (hs : s.InRange c) : s.InRange c' := by
  obtain ⟨h0, hpos, hterm⟩ := hs
  refine ⟨h0, by omega, fun ht => ?_⟩
  rcases Nat.eq_or_lt_of_le hle with heq | hlt
  · rw [← heq]
    exact hterm (h.terminated_iff.mpr (heq ▸ h'.terminated_iff.mp ht))
  · omega

end Cache.Holds

/-- A cache over a well-behaved producer holds a prefix of its stream. -/
theorem Cache.Reached.holds {c : Cache} {p : Producer} {t : TokenStream} (hp : p.Delivers t)
    (h : c.Reached p) : c.Holds p t :=
  (Holds.fresh p t).grows hp h

end PullParse
