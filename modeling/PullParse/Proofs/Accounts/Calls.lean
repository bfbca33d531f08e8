import PullParse.Proofs.Entry.HardFaults

/-!
# Calls and pulls

A call of the producer asks for the position behind the cached tokens, and only
the token that it brings is counted. A call that raises or answers with what is
no pair is not, and it leaves the end of the cache where it was, so the next read
there asks for the same position once more. Within a run this happens at most
once, since the fault of a failed call ends the run; but where that fault is
hard, the run is counted all the same, and with one call too few.
-/

namespace PullParse

/-! ## What the calls deliver -/

namespace Producer

variable {p : Producer} {n m : Nat}

theorem Answered.mono (h : p.Answered n) (hle : m ≤ n) : p.Answered m :=
  fun k hk => h k (hk.trans_le hle)

/-- A call delivers one token more if it is answered with one, and else none. -/
theorem length_delivered_succ (p : Producer) (n : Nat) :
    (∃ token, (p.after n).next.1.bind Token.ofPair = .ok token) ∧
        (p.delivered (n + 1)).length = (p.delivered n).length + 1 ∨
      (∃ fault, (p.after n).next.1.bind Token.ofPair = .error fault) ∧
        (p.delivered (n + 1)).length = (p.delivered n).length := by
  rw [delivered_succ, List.length_append]
  cases (p.after n).next.1.bind Token.ofPair with
  | ok token => exact .inl ⟨⟨token, rfl⟩, rfl⟩
  | error fault => exact .inr ⟨⟨fault, rfl⟩, rfl⟩

theorem length_delivered_of_error {fault : Fault}
    (h : (p.after n).next.1.bind Token.ofPair = .error fault) :
    (p.delivered (n + 1)).length = (p.delivered n).length := by
  rcases p.length_delivered_succ n with ⟨⟨token, htoken⟩, -⟩ | ⟨-, hlength⟩
  · rw [h] at htoken
    cases htoken
  · exact hlength

theorem length_delivered_le (p : Producer) (n : Nat) : (p.delivered n).length ≤ n := by
  induction n with
  | zero => exact le_rfl
  | succ n ih => rcases p.length_delivered_succ n with ⟨-, h⟩ | ⟨-, h⟩ <;> omega

/-- As many tokens are delivered as calls are made if and only if every call is answered with
one. -/
theorem length_delivered_eq_iff : (p.delivered n).length = n ↔ p.Answered n := by
  induction n with
  | zero => exact iff_of_true rfl p.answered_zero
  | succ n ih =>
      have hle := p.length_delivered_le n
      rcases p.length_delivered_succ n with ⟨⟨token, htoken⟩, hlength⟩ | ⟨⟨fault, hfault⟩, hlength⟩
      · constructor
        · intro h
          exact (ih.mp (by omega)).succ htoken
        · intro h
          rw [hlength, ih.mpr (h.mono (Nat.le_succ n))]
      · refine iff_of_false (by omega) fun h => ?_
        obtain ⟨token, htoken⟩ := h n (Nat.lt_succ_self n)
        rw [hfault] at htoken
        cases htoken

/-- The positions that the first calls are made for: each call asks for the one behind the tokens
delivered before. -/
def positions (p : Producer) (n : Nat) : List Int :=
  (List.range n).map fun k => ((p.delivered k).length : Int)

/-- No position is asked for twice if and only if no call but the last one fails. -/
theorem nodup_positions_iff : (p.positions n).Nodup ↔ p.Answered (n - 1) := by
  constructor
  · intro h k hk
    rcases p.length_delivered_succ k with ⟨htoken, -⟩ | ⟨-, hsame⟩
    · exact htoken
    · -- the call behind a failed one is made for the same position
      have hinj := List.inj_on_of_nodup_map h (List.mem_range.mpr (show k < n by omega))
        (List.mem_range.mpr (show k + 1 < n by omega)) (congrArg Nat.cast hsame.symm)
      omega
  · intro h
    have hposition : ∀ k ∈ List.range n, ((p.delivered k).length : Int) = k := by
      intro k hk
      have hk' : k ≤ n - 1 := by
        have := List.mem_range.mp hk
        omega
      rw [length_delivered_eq_iff.mpr (h.mono hk')]
    rw [positions, List.map_congr_left hposition]
    exact List.nodup_range.map Nat.cast_injective

end Producer

/-! ## Histories of reads -/

namespace Cache

/-- The positions for which the reads of a history call the producer. -/
def asked : Cache → List Int → List Int
  | _, [] => []
  | c, k :: ks =>
    let c' := (c.tokenAt k).2
    if c'.producer.calls = c.producer.calls then asked c' ks else k :: asked c' ks

/-- The calls of a history are the next ones, each for the position behind what has been delivered
before. -/
theorem Drawn.asked {c : Cache} {p : Producer} {n : Nat} (h : c.Drawn p n) (ks : List Int) :
    ∃ m, (c.reads ks).Drawn p (n + m) ∧
      c.asked ks = (List.range' n m).map fun k => ((p.delivered k).length : Int) := by
  induction ks generalizing c n with
  | nil => exact ⟨0, h, rfl⟩
  | cons k ks ih =>
      rw [Cache.asked, reads_cons]
      rcases c.tokenAt_cases k with heq | ⟨ht, hk, heq⟩
      · rw [heq, if_pos rfl]
        exact ih h
      · have hpulled := h.pull ht
        have hcalls : c.pull.2.producer.calls ≠ c.producer.calls := by
          rw [hpulled.producer, h.producer, Producer.calls_after, Producer.calls_after]
          omega
        obtain ⟨m, hdrawn, hasked⟩ := ih hpulled
        have hlength : k = ((p.delivered n).length : Int) := by
          rw [hk, ← h.tokens]
          rfl
        rw [heq, if_neg hcalls, hasked, hlength]
        refine ⟨m + 1, ?_, rfl⟩
        rw [show n + (m + 1) = n + 1 + m by omega]
        exact hdrawn

/-- What any history of reads makes of a new cache, by the number of calls that it has made. -/
structure Called (p : Producer) (ks : List Int) (n : Nat) : Prop where
  producer : ((fresh p).reads ks).producer = p.after n
  pulls : ((fresh p).reads ks).pulls = (p.delivered n).length
  asked : (fresh p).asked ks = p.positions n

theorem exists_called (p : Producer) (ks : List Int) : ∃ n, Called p ks n := by
  obtain ⟨n, hdrawn, hasked⟩ := (Drawn.fresh p).asked ks
  rw [Nat.zero_add] at hdrawn
  refine ⟨n, hdrawn.producer, ?_, ?_⟩
  · rw [pulls_reads rfl, ← hdrawn.tokens]
    rfl
  · rw [hasked, ← List.range_eq_range']
    rfl

namespace Called

variable {p : Producer} {ks : List Int} {n : Nat}

/-- As many calls are counted as have been made if and only if all of them have been answered with
a token. -/
theorem pulls_eq_iff (h : Called p ks n) :
    ((fresh p).reads ks).pulls = n ↔ p.Answered n := by
  rw [h.pulls]
  exact Producer.length_delivered_eq_iff

/-- The number of calls can be seen from the producer. -/
theorem unique (h : Called p ks n) {m : Nat} (hm : ((fresh p).reads ks).producer = p.after m) :
    n = m := by
  have hcalls := congrArg Producer.calls (h.producer.symm.trans hm)
  rw [Producer.calls_after, Producer.calls_after] at hcalls
  omega

end Called

end Cache

/-! ## Runs -/

/-- What the end of a run counts is what its cache has counted, and goes to the active
accumulator. -/
theorem Ending.counted_of_mem_closing {ending : Ending Context Outcome} {last : Context}
    (hends : ending.final? = some last) {pulls : Nat} {success : Bool}
    (h : Entry.counted pulls success ∈ ending.closing) :
    pulls = last.cache.pulls ∧ ∀ a : Accounts,
      (ending.closing.foldl Accounts.enter a).profiler = a.profiler.record pulls success := by
  cases ending with
  | done outcome ctx =>
      obtain rfl := Option.some.inj hends
      cases outcome with
      | matched value s =>
          obtain ⟨rfl, rfl⟩ : pulls = ctx.cache.pulls ∧ success = true := by
            simpa [closing] using h
          exact ⟨rfl, fun _ => rfl⟩
      | noMatch =>
          obtain ⟨rfl, rfl⟩ : pulls = ctx.cache.pulls ∧ success = false := by
            simpa [closing] using h
          exact ⟨rfl, fun _ => rfl⟩
  | raised fault ctx =>
      obtain rfl := Option.some.inj hends
      rw [closing] at h ⊢
      by_cases hhard : fault.isHard = true
      · rw [if_pos hhard] at h ⊢
        obtain ⟨rfl, rfl⟩ : pulls = ctx.cache.pulls ∧ success = false := by simpa using h
        exact ⟨rfl, fun _ => rfl⟩
      · rw [if_neg hhard] at h
        cases h
  | unfinished => cases hends

namespace Call.Started

variable {budget : Nat} {c : Call} {settings : Settings} {ending : Ending Context Outcome}
variable {last : Context} {rules : Rules} {g : Grammar}

/-- A run from the first token on gets a token from every call, or is broken off by the first call
that has none. -/
theorem ended (h : c.Started budget settings ending last) (hparser : c.parser = g.parser rules) :
    c.producer.Ended ending := by
  obtain ⟨token, hfirst⟩ := h.pulls
  rw [(Cache.tokenAt_zero_fresh c.producer).1] at hfirst
  rw [← h.runs, hparser]
  exact (Producer.served_upheld budget).grammar rules g c.producer _
    (c.producer.served_started hfirst c.before settings)

/-- A run has only read its cache. -/
theorem exists_reads (h : c.Started budget settings ending last)
    (hparser : c.parser = g.parser rules) :
    ∃ ks, (Cache.fresh c.producer).reads ks = last.cache := by
  have hstart : (Cache.fresh c.producer).GrowsTo
      (Context.started c.producer c.before settings).cache :=
    (Cache.fresh c.producer).growsTo_tokenAt 0
  have hgrown : ending.Grown (Context.started c.producer c.before settings).cache
      (Outcome.OnTrack ⟨0, settings.userData⟩) := by
    rw [← h.runs, hparser]
    exact (Grammar.keepsStep (rules.keepsStep budget) g _ _ _
      (State.inRange_start _ settings.userData).onTrack).grown
  have hends := h.ends
  cases hgrown with
  | done hgrows _ =>
      obtain rfl := Option.some.inj hends
      exact hstart.trans hgrows
  | raised hgrows =>
      obtain rfl := Option.some.inj hends
      exact hstart.trans hgrows
  | unfinished => cases hends

/-- A run makes as many calls as are answered with a token, and at most one more, whose fault ends
the run. -/
theorem exists_called (h : c.Started budget settings ending last)
    (hparser : c.parser = g.parser rules) :
    ∃ n ks, (Cache.fresh c.producer).reads ks = last.cache ∧ Cache.Called c.producer ks n ∧
      (c.producer.Answered n ∨ ∃ m fault, n = m + 1 ∧ c.producer.Answered m ∧
        (c.producer.after m).next.1.bind Token.ofPair = .error fault ∧
          ending = .raised fault last) := by
  obtain ⟨ks, hks⟩ := h.exists_reads hparser
  obtain ⟨n, hcalled⟩ := Cache.exists_called c.producer ks
  have hnumber : ∀ {m}, last.cache.producer = c.producer.after m → n = m := by
    intro m hm
    rw [← hks] at hm
    exact hcalled.unique hm
  refine ⟨n, ks, hks, hcalled, ?_⟩
  have hended := h.ended hparser
  have hends := h.ends
  cases hended with
  | done hserved =>
      obtain rfl := Option.some.inj hends
      obtain ⟨m, hm, hanswered⟩ := hserved
      obtain rfl := hnumber hm
      exact .inl hanswered
  | raised hleft =>
      obtain rfl := Option.some.inj hends
      rcases hleft with ⟨m, hm, hanswered⟩ | ⟨m, hm, hanswered, hfault⟩
      · obtain rfl := hnumber hm
        exact .inl hanswered
      · exact .inr ⟨m, _, hnumber hm, hanswered, hfault, rfl⟩
  | unfinished => cases hends

end Call.Started

/-- **What is counted of the calls of a producer.** Take any producer and any reads of a cache over
it. Each call is made for the position behind the tokens delivered so far, and the count is that of
the delivered tokens. So as many calls are counted as have been made if all of them have been
answered with a token, and in no other case, and a position is asked for twice if and only if a call
but the last has not been answered with one. A run of a grammar asks for no position twice. What it
adds to the active accumulator, if it is recorded, is the number of its calls, but for a run that a
hard fault of the producer itself has broken off: the call that has raised the fault is left out. -/
theorem calls_counted (producer : Producer) :
    (∀ reads : List Int, ∃ n, Cache.Called producer reads n ∧
      (((Cache.fresh producer).reads reads).pulls = n ↔ producer.Answered n) ∧
      (((Cache.fresh producer).asked reads).Nodup ↔ producer.Answered (n - 1))) ∧
    ∀ (rules : Rules) (g : Grammar) (c : Call) (budget : Nat) (settings : Settings)
      (ending : Ending Context Outcome) (last : Context), c.parser = g.parser rules →
      c.producer = producer → c.Made budget → c.Started budget settings ending last →
      ∃ n reads, (Cache.fresh producer).reads reads = last.cache ∧
        Cache.Called producer reads n ∧ ((Cache.fresh producer).asked reads).Nodup ∧
        ∀ (pulls : Nat) (success : Bool), .counted pulls success ∈ ending.closing →
          (last.session.profiler.active = c.before.profiler.active ∧
            c.after.profiler = last.session.profiler.record pulls success) ∧
          (pulls = n ↔ producer.Answered n) ∧
          (pulls = n ∨ pulls + 1 = n ∧ ∃ fault, fault.isHard = true ∧
            ending = .raised fault last ∧ (producer.after pulls).next.1 = .error fault) := by
  constructor
  · intro reads
    obtain ⟨n, hcalled⟩ := Cache.exists_called producer reads
    refine ⟨n, hcalled, hcalled.pulls_eq_iff, ?_⟩
    rw [hcalled.asked]
    exact Producer.nodup_positions_iff
  · rintro rules g c budget settings ending last hparser rfl hmade hstarted
    obtain ⟨n, reads, hreads, hcalled, hanswered⟩ := hstarted.exists_called hparser
    refine ⟨n, reads, hreads, hcalled, ?_, fun pulls success hcounted => ⟨?_, ?_, ?_⟩⟩
    · rw [hcalled.asked, Producer.nodup_positions_iff]
      rcases hanswered with hall | ⟨m, _, rfl, hbefore, -⟩
      · exact hall.mono (Nat.sub_le n 1)
      · exact hbefore
    · obtain ⟨-, hprofiler⟩ := Ending.counted_of_mem_closing hstarted.ends hcounted
      have hlast := hstarted.ends
      rw [← hstarted.runs, hparser] at hlast
      refine ⟨g.active_started rules _ hlast, ?_⟩
      exact (congrArg Accounts.profiler (hmade.accounts_started hstarted)).trans (hprofiler _)
    · obtain ⟨rfl, -⟩ := Ending.counted_of_mem_closing hstarted.ends hcounted
      rw [← hreads]
      exact hcalled.pulls_eq_iff
    · obtain ⟨rfl, -⟩ := Ending.counted_of_mem_closing hstarted.ends hcounted
      have hpulls := hcalled.pulls
      rw [hreads] at hpulls
      rcases hanswered with hall | ⟨m, fault, rfl, hbefore, hfault, hending⟩
      · exact .inl (hpulls.trans (Producer.length_delivered_eq_iff.mpr hall))
      · -- the last call has been made, and has delivered nothing
        have hm : last.cache.pulls = m := by
          rw [hpulls, Producer.length_delivered_of_error hfault,
            Producer.length_delivered_eq_iff.mpr hbefore]
        have hhard : fault.isHard = true := by
          by_contra hsoft
          rw [hending, Ending.closing, if_neg hsoft] at hcounted
          cases hcounted
        rw [hm]
        exact .inr ⟨rfl, fault, hhard, hending, (Producer.bind_ofPair_eq_error_iff hhard).mp hfault⟩

/-- A parse of two tokens under quiet settings, with a producer that raises a hard fault instead of
the second one. -/
def brokenOff (after : Session) : Call where
  parser := twoTokens.parser fun _ _ => .eof
  producer := raisingAt 1
  options := .active
  overrides := [("error_propagation", .bool false)]
  before := { Session.fresh with profiler := Profiler.empty.opened.2 }
  after := after

/-- The second call breaks the run off, and the first one is all that is counted. -/
theorem brokenOff_run :
    ∃ after last, (brokenOff after).Made 4 ∧
      (brokenOff after).Started 4 { Settings.standard with propagate := .bool false }
        (.raised (.parse (.str "boom") .null) last) last ∧
      last.cache.pulls = 1 ∧ last.cache.producer = (raisingAt 1).after 2 := by
  obtain ⟨ctx, hfinal⟩ : ∃ ctx, (((twoTokens.parser fun _ _ => .eof).parse .active
      [("error_propagation", .bool false)]).run 4 (.opened (raisingAt 1)
        { Session.fresh with profiler := Profiler.empty.opened.2 })).final? = some ctx :=
    ⟨_, rfl⟩
  obtain ⟨last, hrun, hpulls, hproducer⟩ : ∃ last,
      (twoTokens.parser (fun _ _ => .eof) ⟨0, Settings.standard.userData⟩).run 4
        (.started (raisingAt 1) { Session.fresh with profiler := Profiler.empty.opened.2 }
          { Settings.standard with propagate := .bool false }) =
            .raised (.parse (.str "boom") .null) last ∧
        last.cache.pulls = 1 ∧ last.cache.producer = (raisingAt 1).after 2 :=
    ⟨_, rfl, rfl, rfl⟩
  exact ⟨ctx.session, last, ⟨ctx, hfinal, rfl⟩, ⟨rfl, ⟨_, rfl⟩, hrun, rfl⟩, hpulls, hproducer⟩

/-- The run makes two calls, and adds one pull to the accumulator that it is recorded in. -/
theorem calls_counted_broken_off :
    ∃ after last reads, (brokenOff after).Made 4 ∧
      (brokenOff after).Started 4 { Settings.standard with propagate := .bool false }
        (.raised (.parse (.str "boom") .null) last) last ∧
      (Cache.fresh (raisingAt 1)).reads reads = last.cache ∧
      Cache.Called (raisingAt 1) reads 2 ∧ ((Cache.fresh (raisingAt 1)).asked reads).Nodup ∧
      after.profiler = last.session.profiler.record 1 false := by
  obtain ⟨after, last, hmade, hstarted, hpulls, hproducer⟩ := brokenOff_run
  obtain ⟨n, reads, hreads, hcalled, hnodup, hcounted⟩ := (calls_counted (raisingAt 1)).2
    (fun _ _ => .eof) twoTokens (brokenOff after) 4 _ _ last rfl rfl hmade hstarted
  obtain ⟨⟨-, hprofiler⟩, -⟩ := hcounted 1 false (by
    rw [← hpulls]
    exact .tail _ (.head _))
  obtain rfl := hcalled.unique (hreads ▸ hproducer)
  exact ⟨after, last, reads, hmade, hstarted, hreads, hcalled, hnodup, hprofiler⟩

/-- The pulls are no count of the calls, a position may be asked for twice, and what a run adds to
the accumulator is not the number of its calls. -/
theorem calls_not_counted :
    (¬ ∀ (producer : Producer) (reads : List Int),
      ((Cache.fresh producer).reads reads).producer.calls =
        producer.calls + ((Cache.fresh producer).reads reads).pulls) ∧
      (¬ ∀ (producer : Producer) (reads : List Int), ((Cache.fresh producer).asked reads).Nodup) ∧
      ¬ ∀ (rules : Rules) (g : Grammar) (c : Call) (budget : Nat) (settings : Settings)
        (ending : Ending Context Outcome) (last : Context), c.parser = g.parser rules →
        c.Made budget → c.Started budget settings ending last →
        ∀ (pulls : Nat) (success : Bool), .counted pulls success ∈ ending.closing →
          last.cache.producer.calls = c.producer.calls + pulls := by
  refine ⟨?_, ?_, ?_⟩
  · intro hpulls
    exact absurd (hpulls (raisingAt 0) [0]) (by decide)
  · intro hnodup
    exact absurd (hnodup (raisingAt 0) [0, 0]) (by decide)
  · intro hcounted
    obtain ⟨after, last, hmade, hstarted, hpulls, hproducer⟩ := brokenOff_run
    have hcalls := hcounted (fun _ _ => .eof) twoTokens (brokenOff after) 4 _ _ last rfl hmade
      hstarted last.cache.pulls false (.tail _ (.head _))
    rw [hproducer, hpulls] at hcalls
    exact absurd hcalls (show ¬((raisingAt 1).after 2).calls = (raisingAt 1).calls + 1 by decide)

end PullParse
