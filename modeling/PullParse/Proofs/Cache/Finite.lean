import PullParse.Proofs.Cache.Streams

/-!
# Producers that come to an end

A producer may raise or answer with what is no pair, and be called again for the
same position: what it delivers are its other answers. If an end token is among
them, no cache over the producer ever goes beyond that token, and no state in
range is behind it.
-/

namespace PullParse

namespace Producer

/-- The tokens that the first calls deliver. A call that fails delivers none. -/
def delivered (p : Producer) (n : Nat) : List Token :=
  (List.range n).filterMap fun k => ((p.after k).next.1.bind Token.ofPair).toOption

/-- An end token is delivered, and `last` tokens are delivered before it. -/
def EndsAt (p : Producer) (last : Nat) : Prop :=
  ∃ n token, (p.after n).next.1.bind Token.ofPair = .ok token ∧ token.isEof = true ∧
    (p.delivered n).length = last

theorem delivered_succ (p : Producer) (n : Nat) :
    p.delivered (n + 1) =
      p.delivered n ++ ((p.after n).next.1.bind Token.ofPair).toOption.toList := by
  rw [delivered, List.range_succ, List.filterMap_append, ← delivered]
  congr 1

/-- Further calls deliver further tokens. -/
theorem delivered_prefix (p : Producer) {n m : Nat} (h : n ≤ m) :
    p.delivered n <+: p.delivered m := by
  induction m, h using Nat.le_induction with
  | base => exact List.prefix_rfl
  | succ m _ ih =>
      rw [delivered_succ]
      exact ih.trans (List.prefix_append _ _)

/-- A well-behaved producer ends where its stream does. -/
theorem Delivers.endsAt {p : Producer} {t : TokenStream} (h : p.Delivers t) {last : Nat}
    (hopen : t.Open last) (hend : (t last).isEof = true) : p.EndsAt last := by
  refine ⟨last, t last, h last hopen, hend, ?_⟩
  have hall : ∀ n ≤ last, (p.delivered n).length = n := by
    intro n
    induction n with
    | zero => exact fun _ => rfl
    | succ n ih =>
        intro hn
        rw [delivered_succ, h n fun j hj => hopen j (by omega), List.length_append, ih (by omega)]
        rfl
  exact hall last le_rfl

end Producer

namespace Cache

/-- However the cache grows, no state in range is behind this position. -/
def EndsBy (c : Cache) (last : Nat) : Prop :=
  ∀ c', c.GrowsTo c' → ∀ s : State, s.InRange c' → s.position ≤ last

theorem EndsBy.grows {c c' : Cache} {last : Nat} (h : c.EndsBy last) (hg : c.GrowsTo c') :
    c'.EndsBy last := fun _ hg' => h _ (hg.trans hg')

theorem EndsBy.position_le {c : Cache} {last : Nat} (h : c.EndsBy last) {s : State}
    (hs : s.InRange c) : s.position ≤ last := h c (.refl c) s hs

/-- The cache holds what the first `n` calls have delivered, and nothing behind an end token. -/
structure Drawn (c : Cache) (p : Producer) (n : Nat) : Prop where
  producer : c.producer = p.after n
  tokens : c.tokens.toList = p.delivered n
  isOpen : ∀ i token, i + 1 < c.length → c.tokens[i]? = some token → token.isEof = false

namespace Drawn

variable {c : Cache} {p : Producer} {n : Nat}

theorem fresh (p : Producer) : (Cache.fresh p).Drawn p 0 :=
  ⟨rfl, rfl, fun _ _ hi => absurd hi (Nat.not_lt_zero _)⟩

theorem pull (h : c.Drawn p n) (ht : c.terminated = false) : c.pull.2.Drawn p (n + 1) := by
  have hdelivered := p.delivered_succ n
  rw [← h.producer, ← h.tokens] at hdelivered
  have hproducer : c.producer.next.2 = p.after (n + 1) := by
    rw [h.producer]
    rfl
  rw [pull_eq]
  cases hnext : c.producer.next.1.bind Token.ofPair with
  | error fault =>
      rw [hnext] at hdelivered
      exact ⟨hproducer, by simp [hdelivered, Except.toOption], h.isOpen⟩
  | ok token =>
      rw [hnext] at hdelivered
      refine ⟨hproducer, by simp [hdelivered, Except.toOption], ?_⟩
      intro i found hi hget
      simp only [length, Array.size_push] at hi hget
      rw [Array.getElem?_push_lt (by omega), ← Array.getElem?_eq_getElem (by omega)] at hget
      rcases Nat.lt_or_ge (i + 1) c.length with hlt | hge
      · exact h.isOpen i found hlt hget
      · -- the token before the new one is the last of a cache that is not terminated
        have hlast : c.tokens.back? = some found := by
          rw [Array.back?, ← hget]
          congr 1
          simp only [length] at hge
          omega
        by_contra he
        have hterm := terminated_iff.mpr ⟨found, hlast, by simpa using he⟩
        rw [ht] at hterm
        cases hterm

theorem reads (h : c.Drawn p n) (ks : List Int) : ∃ m, (c.reads ks).Drawn p m := by
  induction ks generalizing c n with
  | nil => exact ⟨n, h⟩
  | cons k ks ih =>
      rcases c.tokenAt_cases k with heq | ⟨ht, -, heq⟩
      · exact ih (c := (c.tokenAt k).2) (by rw [heq]; exact h)
      · exact ih (c := (c.tokenAt k).2) (by rw [heq]; exact h.pull ht)

/-- No state in range is behind a delivered end token. -/
theorem position_le (h : c.Drawn p n) {last : Nat} (hend : p.EndsAt last) {s : State}
    (hs : s.InRange c) : s.position ≤ last := by
  obtain ⟨m, token, hanswer, he, hlength⟩ := hend
  obtain ⟨-, hle, hterm⟩ := hs
  have hsize : c.length = (p.delivered n).length := by
    rw [← h.tokens]
    rfl
  rcases Nat.lt_or_ge m n with hlt | hge
  · -- the end token has been delivered, so it is the last one of the cache
    have hprefix := p.delivered_prefix (show m + 1 ≤ n from hlt)
    rw [Producer.delivered_succ, hanswer, ← h.tokens] at hprefix
    have hget : c.tokens[last]? = some token := by
      obtain ⟨rest, hrest⟩ := hprefix
      rw [← Array.getElem?_toList, ← hrest, ← hlength]
      simp [Except.toOption]
    have hlt' : last < c.length := (Array.getElem?_eq_some_iff.mp hget).1
    have hlast : ¬last + 1 < c.length := fun hmore => by
      rw [h.isOpen last token hmore hget] at he
      cases he
    have hback : c.tokens.back? = some token := by
      rw [Array.back?, ← hget]
      congr 1
      simp only [length] at hlt' hlast
      omega
    have := hterm (terminated_iff.mpr ⟨token, hback, he⟩)
    omega
  · have hprefix := (p.delivered_prefix hge).length_le
    omega

end Drawn

/-- A cache over a producer that ends does so, too. -/
theorem Reached.endsBy {c : Cache} {p : Producer} {last : Nat} (h : c.Reached p)
    (hend : p.EndsAt last) : c.EndsBy last := by
  intro c' hg s hs
  obtain ⟨ks, rfl⟩ := GrowsTo.trans h hg
  obtain ⟨n, hdrawn⟩ := (Drawn.fresh p).reads ks
  exact hdrawn.position_le hend hs

end Cache

end PullParse
