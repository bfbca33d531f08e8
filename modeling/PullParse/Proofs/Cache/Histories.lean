import PullParse.Proofs.Cache.Finite

/-!
# Caches after any history of reads

A cache may be read at any positions in any order: at a negative one, again at one
that it holds, behind its end, too far ahead, and again after a read that has
failed. Its producer may raise, answer with what is no pair, and bring more tokens
behind an end token. A read goes one of a few ways, and each of them keeps what
the cache holds, so every history of reads does.
-/

namespace PullParse

namespace Cache

/-- The ways a read goes: what it answers, and the cache that it leaves. -/
inductive Answers (c : Cache) (position : Int) : Except Fault Token → Cache → Prop
  | cached {token : Token} (h0 : 0 ≤ position) (hget : c.tokens[position.toNat]? = some token) :
      Answers c position (.ok token) c
  /-- A negative position counts from the end. -/
  | fromEnd {token : Token} (hneg : position < 0) (h0 : 0 ≤ position + c.length)
      (hget : c.tokens[(position + c.length).toNat]? = some token) :
      Answers c position (.ok token) c
  | outOfRange (hneg : position < 0) (h : position + c.length < 0) :
      Answers c position (.error .outOfRange) c
  | tooLarge (h : position < -Elements.maxWord - 1) :
      Answers c position (.error .indexTooLarge) c
  /-- Behind an end token there is nothing but that token. -/
  | ended {token : Token} (hle : c.length ≤ position) (hlast : c.tokens.back? = some token)
      (hend : token.isEof = true) : Answers c position (.ok token) c
  | ahead (hlt : c.length < position) (hopen : c.terminated = false) :
      Answers c position (.error (.aheadOfCache position c.length)) c
  | pulled {token : Token} (heq : position = c.length) (hopen : c.terminated = false)
      (h : c.producer.next.1.bind Token.ofPair = .ok token) :
      Answers c position (.ok token) ⟨c.tokens.push token, c.pulls + 1, c.producer.next.2⟩
  /-- The producer has been called, and its answer was a fault or no pair. -/
  | spoilt {fault : Fault} (heq : position = c.length) (hopen : c.terminated = false)
      (h : c.producer.next.1.bind Token.ofPair = .error fault) :
      Answers c position (.error fault) ⟨c.tokens, c.pulls, c.producer.next.2⟩

theorem endToken?_eq_some {c : Cache} {token : Token} (h : c.endToken? = some token) :
    c.tokens.back? = some token ∧ token.isEof = true := by
  simpa [endToken?, Option.filter_eq_some_iff] using h

theorem endToken?_eq_none_iff {c : Cache} : c.endToken? = none ↔ c.terminated = false := by
  simp [terminated]

/-- A read among the cached tokens finds one, or is out of range. -/
theorem answers_cached {c : Cache} {position : Int} (h : position < c.length) :
    c.Answers position (c.cached position) c := by
  unfold cached
  by_cases hlarge : position < -Elements.maxWord - 1
  · rw [if_pos hlarge]
    exact .tooLarge hlarge
  rw [if_neg hlarge]
  by_cases hneg : position < 0
  · rw [if_pos hneg]
    by_cases hrange : position + c.length < 0
    · rw [if_pos hrange]
      exact .outOfRange hneg hrange
    · have hlt : (position + c.length).toNat < c.tokens.size := by
        simp only [length] at hrange ⊢
        omega
      rw [if_neg hrange, Array.getElem?_eq_getElem hlt]
      exact .fromEnd hneg (not_lt.mp hrange) (Array.getElem?_eq_getElem hlt)
  · have hlt : position.toNat < c.tokens.size := by
      simp only [length] at h
      omega
    rw [if_neg hneg, if_neg hneg, Array.getElem?_eq_getElem hlt]
    exact .cached (not_lt.mp hneg) (Array.getElem?_eq_getElem hlt)

/-- A read at the end of a cache that is not terminated calls the producer. -/
theorem answers_pull {c : Cache} (hopen : c.terminated = false) :
    c.Answers c.length c.pull.1 c.pull.2 := by
  rw [pull_eq]
  cases h : c.producer.next.1.bind Token.ofPair with
  | ok token => exact .pulled rfl hopen h
  | error fault => exact .spoilt rfl hopen h

theorem answers_tokenAt (c : Cache) (position : Int) :
    c.Answers position (c.tokenAt position).1 (c.tokenAt position).2 := by
  unfold tokenAt
  by_cases hlt : position < c.length
  · rw [if_pos hlt]
    exact answers_cached hlt
  rw [if_neg hlt]
  cases hlast : c.endToken? with
  | some token =>
      obtain ⟨hback, hend⟩ := endToken?_eq_some hlast
      exact .ended (not_lt.mp hlt) hback hend
  | none =>
      have hopen := endToken?_eq_none_iff.mp hlast
      by_cases heq : position = c.length
      · subst heq
        rw [if_pos rfl]
        exact answers_pull hopen
      · rw [if_neg heq]
        exact .ahead (lt_of_le_of_ne (not_lt.mp hlt) (Ne.symm heq)) hopen

namespace Answers

variable {c c' : Cache} {position : Int} {answer : Except Fault Token}

/-- A read that fails leaves the tokens and their count alone. -/
theorem failed {fault : Fault} (h : c.Answers position (.error fault) c') :
    c'.tokens = c.tokens ∧ c'.pulls = c.pulls := by
  cases h <;> exact ⟨rfl, rfl⟩

/-- A read appends the token that it answers, or nothing. -/
theorem appended (h : c.Answers position answer c') :
    c'.tokens = c.tokens ∨ ∃ token, answer = .ok token ∧ c'.tokens = c.tokens.push token := by
  cases h with
  | pulled _ _ _ => exact .inr ⟨_, rfl, rfl⟩
  | _ => exact .inl rfl

/-- The pulls are counted as the tokens are appended. -/
theorem pulls_eq (h : c.Answers position answer c') (hpulls : c.pulls = c.length) :
    c'.pulls = c'.length := by
  cases h with
  | pulled _ _ _ => simp [length, hpulls]
  | _ => exact hpulls

/-- A terminated cache is left as it is, its producer included. -/
theorem eq_of_terminated (h : c.Answers position answer c') (hterm : c.terminated = true) :
    c' = c := by
  cases h with
  | pulled _ hopen _ => rw [hterm] at hopen; cases hopen
  | spoilt _ hopen _ => rw [hterm] at hopen; cases hopen
  | _ => rfl

end Answers

/-! ## Histories -/

theorem reads_cons (c : Cache) (k : Int) (ks : List Int) :
    c.reads (k :: ks) = (c.tokenAt k).2.reads ks := rfl

theorem pulls_reads {c : Cache} (h : c.pulls = c.length) (ks : List Int) :
    (c.reads ks).pulls = (c.reads ks).length := by
  induction ks generalizing c with
  | nil => exact h
  | cons k ks ih =>
      rw [reads_cons]
      exact ih ((c.answers_tokenAt k).pulls_eq h)

theorem reads_of_terminated {c : Cache} (h : c.terminated = true) (ks : List Int) :
    c.reads ks = c := by
  induction ks with
  | nil => rfl
  | cons k ks ih => rw [reads_cons, (c.answers_tokenAt k).eq_of_terminated h, ih]

theorem prefix_reads (c : Cache) (ks : List Int) :
    c.tokens.toList <+: (c.reads ks).tokens.toList := by
  induction ks generalizing c with
  | nil => exact List.prefix_rfl
  | cons k ks ih =>
      rw [reads_cons]
      refine List.IsPrefix.trans ?_ (ih _)
      rcases (c.answers_tokenAt k).appended with h | ⟨token, -, h⟩
      · rw [h]
      · rw [h, Array.toList_push]
        exact List.prefix_append _ _

/-- A token that is cached is what a read at its position answers, for ever. -/
theorem tokenAt_reads {c : Cache} {i : Nat} {token : Token} (h : c.tokens[i]? = some token)
    (ks : List Int) : (c.reads ks).tokenAt i = (.ok token, c.reads ks) := by
  have hget : (c.reads ks).tokens[i]? = some token := GrowsTo.getElem?_tokens ⟨ks, rfl⟩ h
  have hlt : (i : Int) < (c.reads ks).length := by
    have := (Array.getElem?_eq_some_iff.mp hget).1
    simp only [length]
    omega
  obtain ⟨found, hfound, hcached⟩ := cached_of_lt (Int.natCast_nonneg i) hlt
  rw [Int.toNat_natCast, hget] at hfound
  cases hfound
  rw [tokenAt_of_lt hlt, hcached]

/-- Behind the end token every read answers that token. -/
theorem tokenAt_of_length_le {c : Cache} {token : Token} (hlast : c.tokens.back? = some token)
    (hend : token.isEof = true) {k : Int} (hk : c.length ≤ k) : c.tokenAt k = (.ok token, c) := by
  have htoken : c.endToken? = some token := by simp [endToken?, hlast, hend]
  rw [tokenAt, if_neg (not_lt.mpr hk), htoken]

end Cache

/-- What a cache keeps to, whatever has been read from it. -/
structure Cache.Kept (c : Cache) : Prop where
  /-- Every counted pull has appended a token, and nothing else has. -/
  pulls : c.pulls = c.length
  /-- An end token is the last one, so there is at most one. -/
  end_last : ∀ i token, c.tokens[i]? = some token → token.isEof = true → i + 1 = c.length

/-- A cache that reads a producer from its start is kept. -/
theorem Cache.kept_reads (producer : Producer) (ks : List Int) :
    ((Cache.fresh producer).reads ks).Kept := by
  obtain ⟨n, hdrawn⟩ := (Cache.Drawn.fresh producer).reads ks
  refine ⟨Cache.pulls_reads rfl ks, fun i token hget hend => ?_⟩
  have hlt : i < ((Cache.fresh producer).reads ks).length := (Array.getElem?_eq_some_iff.mp hget).1
  by_contra hne
  rw [hdrawn.isOpen i token (by omega) hget] at hend
  cases hend

/-- **A cache keeps its tokens.** Take any producer and any reads of a cache over it. As many pulls
are counted as tokens are cached, and an end token is the last of them. Whatever is read next, at
most the token that is answered is appended, and a read that fails leaves the tokens and their count
alone. Whatever is read from then on, the tokens stay in front, and each of them is what a read at
its position answers. Once there is an end token, no read changes the cache or calls its producer,
and every read behind the cached tokens answers that token. -/
theorem cache_keeps_tokens (producer : Producer) (before : List Int) (c : Cache)
    (hc : (Cache.fresh producer).reads before = c) :
    c.Kept ∧
      (∀ k, (c.tokenAt k).2.tokens = c.tokens ∨
        ∃ token, (c.tokenAt k).1 = .ok token ∧ (c.tokenAt k).2.tokens = c.tokens.push token) ∧
      (∀ k fault, (c.tokenAt k).1 = .error fault →
        (c.tokenAt k).2.tokens = c.tokens ∧ (c.tokenAt k).2.pulls = c.pulls) ∧
      (∀ later, c.tokens.toList <+: (c.reads later).tokens.toList) ∧
      (∀ later (i : Nat) token, c.tokens[i]? = some token →
        (c.reads later).tokenAt i = (.ok token, c.reads later)) ∧
      ∀ (i : Nat) token, c.tokens[i]? = some token → token.isEof = true →
        ∀ later, c.reads later = c ∧ ∀ k : Int, c.length ≤ k → c.tokenAt k = (.ok token, c) := by
  have hkept : c.Kept := hc ▸ Cache.kept_reads producer before
  refine ⟨hkept, ?_, ?_, c.prefix_reads, ?_, ?_⟩
  · exact fun k => (c.answers_tokenAt k).appended
  · intro k fault hfault
    have hanswers := c.answers_tokenAt k
    rw [hfault] at hanswers
    exact hanswers.failed
  · exact fun later i token hget => Cache.tokenAt_reads hget later
  · intro i token hget hend later
    have hlast : c.tokens.back? = some token := by
      have hi := hkept.end_last i token hget hend
      rw [Array.back?, ← hget]
      congr 1
      simp only [Cache.length] at hi
      omega
    have hterm : c.terminated = true := Cache.terminated_iff.mpr ⟨token, hlast, hend⟩
    exact ⟨Cache.reads_of_terminated hterm later,
      fun k hk => Cache.tokenAt_of_length_le hlast hend hk⟩

/-- Raises, answers with what is no pair, brings a token and an end token, and goes on behind it. -/
def unreliableProducer : Producer :=
  .ofAnswers #[.error (.parse (.str "refused") .null), .ok (.int 7), .ok (.pair (.str "a") (.int 1)),
    .ok (.pair .null (.int 2)), .ok (.pair (.str "b") (.int 3))]

/-- Reads at the end, before the start and too far ahead, with failures among them, leave the token
and the end token, which is read from then on. -/
theorem cache_keeps_tokens_unreliable :
    (Cache.fresh unreliableProducer).reads [-1, 0, 0, 5, 0, -3, 1] =
        ⟨#[⟨.str "a", .int 1⟩, ⟨.null, .int 2⟩], 2, unreliableProducer.after 4⟩ ∧
      ∀ later, ((⟨#[⟨.str "a", .int 1⟩, ⟨.null, .int 2⟩], 2, unreliableProducer.after 4⟩ :
          Cache).reads later).tokenAt 9 =
        (.ok ⟨.null, .int 2⟩, ⟨#[⟨.str "a", .int 1⟩, ⟨.null, .int 2⟩], 2,
          unreliableProducer.after 4⟩) := by
  have hc : (Cache.fresh unreliableProducer).reads [-1, 0, 0, 5, 0, -3, 1] =
      ⟨#[⟨.str "a", .int 1⟩, ⟨.null, .int 2⟩], 2, unreliableProducer.after 4⟩ := rfl
  refine ⟨hc, fun later => ?_⟩
  obtain ⟨-, -, -, -, -, hended⟩ := cache_keeps_tokens unreliableProducer _ _ hc
  obtain ⟨hreads, hbehind⟩ := hended 1 ⟨.null, .int 2⟩ rfl rfl later
  rw [hreads]
  exact hbehind 9 (by decide)

end PullParse
