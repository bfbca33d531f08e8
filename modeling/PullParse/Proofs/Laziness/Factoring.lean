import PullParse.Proofs.Laziness.Pulls
import PullParse.Proofs.Reading.Transparency

/-!
# Left factoring is free

Two alternatives that begin alike may read their common beginning twice, once
for each alternative that is tried. The second time it gives what it has given
the first time, since a reading has no memory, and pulls nothing, since all that
it looks at has been pulled. So taking the common beginning out of the
alternatives changes neither how a run ends nor what it asks of the producer.
-/

namespace PullParse

variable {α β γ : Type}

namespace Cache

theorem lt_filledTo (n : Nat) {ks : List Int} {k : Int} (hk : k ∈ ks) :
    k.toNat < filledTo n ks := by
  induction ks generalizing n with
  | nil => exact absurd hk List.not_mem_nil
  | cons l ks ih =>
      rcases List.mem_cons.mp hk with rfl | hk
      · have hle := le_filledTo (max n (k.toNat + 1)) ks
        show k.toNat < filledTo (max n (k.toNat + 1)) ks
        omega
      · exact ih _ hk

/-- What lies within a cache does not fill it further. -/
theorem filledTo_of_lt {n : Nat} {ks : List Int} (h : ∀ k ∈ ks, k.toNat < n) :
    filledTo n ks = n := by
  induction ks with
  | nil => rfl
  | cons k ks ih =>
      have hk : max n (k.toNat + 1) = n := max_eq_left (h k List.mem_cons_self)
      show filledTo (max n (k.toNat + 1)) ks = n
      rw [hk]
      exact ih fun l hl => h l (List.mem_cons_of_mem _ hl)

/-- Positions that have been looked at may be looked at again. -/
theorem filledTo_again (n : Nat) {ks seen : List Int} (h : ks ⊆ seen) :
    filledTo n (seen ++ ks) = filledTo n seen := by
  rw [filledTo_append]
  exact filledTo_of_lt fun k hk => lt_filledTo n (h hk)

end Cache

/-! ## Readings that cannot be told apart -/

namespace Reading

theorem bind_assoc (x : Reading α) (f : α → Reading β) (g : β → Reading γ) :
    x >>= f >>= g = x >>= fun a => f a >>= g := by
  cases hx : x.result with
  | none => rw [bind_of_unfinished hx, bind_of_unfinished hx, bind_of_unfinished rfl]
  | some result =>
      cases result with
      | error fault => rw [bind_of_error hx, bind_of_error hx, bind_of_error rfl]
      | ok a =>
          rw [bind_of_ok hx, bind_of_ok hx]
          cases hf : (f a).result with
          | none => rw [bind_of_unfinished rfl, bind_of_unfinished hf]
          | some result =>
              cases result with
              | error fault => rw [bind_of_error rfl, bind_of_error hf]
              | ok b =>
                  rw [bind_of_ok rfl, bind_of_ok hf]
                  simp only [List.append_assoc]

/-- Once some positions have been looked at, the readings have the same result and take a cache
equally far. -/
structure Alike (seen : List Int) (x y : Reading α) : Prop where
  result : x.result = y.result
  filled : ∀ n, Cache.filledTo n (seen ++ x.examined) = Cache.filledTo n (seen ++ y.examined)

namespace Alike

variable {seen : List Int} {x y : Reading α}

theorem refl (seen : List Int) (x : Reading α) : Alike seen x x := ⟨rfl, fun _ => rfl⟩

theorem symm (h : Alike seen x y) : Alike seen y x := ⟨h.result.symm, fun n => (h.filled n).symm⟩

/-- After the same beginning. -/
theorem bind {f g : α → Reading β}
    (h : ∀ a, x.result = some (.ok a) → Alike (seen ++ x.examined) (f a) (g a)) :
    Alike seen (x >>= f) (x >>= g) := by
  cases hx : x.result with
  | none =>
      rw [bind_of_unfinished hx, bind_of_unfinished hx]
      exact refl _ _
  | some result =>
      cases result with
      | error fault =>
          rw [bind_of_error hx, bind_of_error hx]
          exact refl _ _
      | ok a =>
          obtain ⟨hresult, hfilled⟩ := h a hx
          rw [bind_of_ok hx, bind_of_ok hx]
          refine ⟨hresult, fun n => ?_⟩
          have hn := hfilled n
          rw [List.append_assoc, List.append_assoc] at hn
          exact hn

/-- Before the same continuation. -/
theorem before (h : Alike seen x y) (f : α → Reading β) : Alike seen (x >>= f) (y >>= f) := by
  obtain ⟨hresult, hfilled⟩ := h
  cases hx : x.result with
  | none =>
      rw [bind_of_unfinished hx, bind_of_unfinished (hresult.symm.trans hx)]
      exact ⟨rfl, hfilled⟩
  | some result =>
      cases result with
      | error fault =>
          rw [bind_of_error hx, bind_of_error (hresult.symm.trans hx)]
          exact ⟨rfl, hfilled⟩
      | ok a =>
          rw [bind_of_ok hx, bind_of_ok (hresult.symm.trans hx)]
          refine ⟨rfl, fun n => ?_⟩
          rw [← List.append_assoc, Cache.filledTo_append, hfilled, ← Cache.filledTo_append,
            List.append_assoc]

/-- What has been read already may be read again before going on. -/
theorem again {a : α} (hx : x.result = some (.ok a)) (hseen : x.examined ⊆ seen)
    (f : α → Reading β) : Alike seen (x >>= f) (f a) := by
  rw [bind_of_ok hx]
  refine ⟨rfl, fun n => ?_⟩
  rw [← List.append_assoc, Cache.filledTo_append, Cache.filledTo_again n hseen,
    ← Cache.filledTo_append]

end Alike

end Reading

namespace Grammar

variable {t : TokenStream} {settings : Settings} {budget : Nat}
variable {rule : String → List Value → Reader} {s : State}

/-- Taking a common beginning out of two alternatives does not change what is read. -/
theorem read_factored (a : Grammar) (f g : Value → Grammar) :
    Reading.Alike [] ((either (bind a f) (bind a g)).read t settings budget rule s)
      ((bind a fun v => either (f v) (g v)).read t settings budget rule s) := by
  rw [read, read, read]
  beta_reduce
  rw [Reading.bind_assoc]
  refine .bind fun outcome ha => ?_
  cases outcome with
  | noMatch =>
      -- the second alternative reads `a` a second time, to no match again
      show Reading.Alike _ ((bind a g).read t settings budget rule s) (Pure.pure .noMatch)
      rw [read]
      exact .again ha (List.Subset.refl _) _
  | matched v s' =>
      refine .bind fun outcome' _ => ?_
      cases outcome' with
      | matched w s'' => exact .refl _ _
      | noMatch =>
          -- the second alternative reads `a` a second time and goes on from the same match
          show Reading.Alike _ ((bind a g).read t settings budget rule s)
            ((g v).read t settings budget rule s')
          rw [read]
          exact .again ha (List.subset_append_left _ _) _

end Grammar

/-! ## Runs that cannot be told apart -/

/-- The endings have the same value or fault, and the caches that they leave have pulled the same
tokens with the same calls. -/
structure Ending.Matches (e e' : Ending Context α) : Prop where
  result : e.result? = e'.result?
  cache : e.final?.map Context.cache = e'.final?.map Context.cache

section

variable {src : Producer} {t : TokenStream} {budget : Nat} {ctx : Context}
variable {x x' : Run Context Outcome} {y y' : Reading Outcome}

/-- Readings that take a cache equally far leave the same cache behind their runs, if both end. -/
theorem Run.Reads.cache_eq (h : Reads .any src t budget ctx Outcome.Same x y)
    (h' : Reads .any src t budget ctx Outcome.Same x' y')
    (hends : y.result.isSome = y'.result.isSome)
    (hfilled : ∀ n, Cache.filledTo n y.examined = Cache.filledTo n y'.examined) :
    (x.run budget ctx).final?.map Context.cache = (x'.run budget ctx).final?.map Context.cache := by
  have hfinal : ((x.run budget ctx).final?).isSome = ((x'.run budget ctx).final?).isSome := by
    rw [Ending.isSome_final?, Ending.isSome_final?, h.result?_eq, h'.result?_eq, hends]
  cases hx : (x.run budget ctx).final? with
  | none =>
      cases hx' : (x'.run budget ctx).final? with
      | none => rfl
      | some ctx' =>
          rw [hx, hx'] at hfinal
          cases hfinal
  | some ctx' =>
      rw [hx] at hfinal
      obtain ⟨ctx'', hx'⟩ := Option.isSome_iff_exists.mp hfinal.symm
      have hlooked := h.looked hx
      have hlooked' := h'.looked hx'
      have hlength : ctx'.cache.length = ctx''.cache.length := by
        rw [hlooked.length, hlooked'.length]
        exact hfilled _
      rw [hx']
      exact congrArg some (hlooked.holds.eq_of_length hlooked'.holds hlength)

/-- Runs of readings that are alike match. -/
theorem Run.Reads.matches_of_alike (h : Reads .any src t budget ctx Outcome.Same x y)
    (h' : Reads .any src t budget ctx Outcome.Same x' y') (halike : Reading.Alike [] y y') :
    (x.run budget ctx).Matches (x'.run budget ctx) := by
  refine ⟨?_, h.cache_eq h' (by rw [halike.result]) halike.filled⟩
  rw [h.result?_eq, h'.result?_eq, halike.result]

end

namespace Grammar

/-- A choice among three is the same parser however it is grouped. -/
theorem either_assoc (rules : Rules) (p q r : Grammar) :
    ((p.either q).either r).parser rules = (p.either (q.either r)).parser rules := by
  funext s
  ext budget ctx
  show (Run.bind (Run.bind (p.toParser (rules.parser budget) s) _) _).run budget ctx =
    (Run.bind (p.toParser (rules.parser budget) s) _).run budget ctx
  simp only [Run.bind]
  cases (p.toParser (rules.parser budget) s).run budget ctx with
  | done outcome ctx' =>
      cases outcome with
      | matched v s' => rfl
      | noMatch => rfl
  | raised fault ctx' => rfl
  | unfinished => rfl

/-- Alternatives with a common beginning run like the beginning with alternatives behind it. -/
theorem factored_matches {rules : Rules} (hrules : ∀ name args, (rules name args).Plain)
    {a : Grammar} (ha : a.Plain) {f g : Value → Grammar} (hf : ∀ v, (f v).Plain)
    (hg : ∀ v, (g v).Plain) {src : Producer} {t : TokenStream} (hsrc : src.Delivers t)
    {budget : Nat} {ctx : Context} (hctx : ctx.cache.Holds src t) {s : State}
    (hs : s.InRange ctx.cache) :
    (((either (bind a f) (bind a g)).parser rules s).run budget ctx).Matches
      (((bind a fun v => either (f v) (g v)).parser rules s).run budget ctx) := by
  have hapart : (either (bind a f) (bind a g)).Plain :=
    ⟨trivial, ⟨trivial, ha, hf⟩, trivial, ha, hg⟩
  have hfactored : (bind a fun v => either (f v) (g v)).Plain :=
    ⟨trivial, ha, fun v => ⟨trivial, hf v, hg v⟩⟩
  exact (Grammar.reads hsrc hrules hapart hctx hs).matches_of_alike
    (Grammar.reads hsrc hrules hfactored hctx hs) (read_factored a f g)

end Grammar

/-- **Left factoring is free.** Over a producer that delivers a stream, from every state in range
and under every setting, two alternatives with a common beginning end as the beginning with the
alternatives behind it does, with the same match, mismatch or fault, and leave the producer and the
pulled tokens the same. The same goes for sequences. A choice among three grammars is the same
parser however it is grouped. -/
theorem left_factoring (rules : Rules) (hrules : ∀ name args, (rules name args).Plain)
    (a : Grammar) (ha : a.Plain) (f g : Value → Grammar) (hf : ∀ v, (f v).Plain)
    (hg : ∀ v, (g v).Plain) (src : Producer) (t : TokenStream) (hsrc : src.Delivers t)
    (budget : Nat) (ctx : Context) (hctx : ctx.cache.Reached src) (s : State)
    (hs : s.InRange ctx.cache) :
    (((Grammar.either (.bind a f) (.bind a g)).parser rules s).run budget ctx).Matches
        (((Grammar.bind a fun v => .either (f v) (g v)).parser rules s).run budget ctx) ∧
      (∀ p q : Grammar, p.Plain → q.Plain →
        (((Grammar.either (.sequence a p []) (.sequence a q [])).parser rules s).run budget
            ctx).Matches
          (((Grammar.sequence a (.either p q) []).parser rules s).run budget ctx)) ∧
      ∀ p q r : Grammar,
        ((p.either q).either r).parser rules = (p.either (q.either r)).parser rules := by
  refine ⟨?_, ?_, Grammar.either_assoc rules⟩
  · exact Grammar.factored_matches hrules ha hf hg hsrc (hctx.holds hsrc) hs
  · intro p q hp hq
    -- a sequence of two is a chain whose continuation ignores the value
    exact Grammar.factored_matches hrules ha (f := fun _ => p) (g := fun _ => q) (fun _ => hp)
      (fun _ => hq) hsrc (hctx.holds hsrc) hs

/-- Takes the items, and then a token with a class that is never there. -/
def overreaching : Value → Grammar := fun _ => .andThen .anyToken (.is (.str "c"))

/-- Takes the items, and fails for good if there is a token behind them. -/
def refusingMore : Value → Grammar := fun items => .andThen (.lookahead .anyToken) (.fail items)

/-- The first alternative pulls up to the end before it does not match, so the items are read for a
second time, and the second alternative fails for good: as if the items had been read once. -/
theorem left_factoring_refusing :
    (∀ (name : String) (args : List Value), ((fun _ _ => .eof : Rules) name args).Plain) ∧
      (Grammar.many1 (.is (.str "a"))).Plain ∧ (∀ v, (overreaching v).Plain) ∧
      (∀ v, (refusingMore v).Plain) ∧
      (Producer.ofTokens threeTokens).Delivers (.ofList threeTokens) ∧
      State.InRange ⟨0, .null⟩ (Cache.fresh (.ofTokens threeTokens)) ∧
      (((Grammar.either (.bind (.many1 (.is (.str "a"))) overreaching)
        (.bind (.many1 (.is (.str "a"))) refusingMore)).parser (fun _ _ => .eof) ⟨0, .null⟩).run 4
          (.opened (.ofTokens threeTokens) .fresh)).result? =
            some (.error (.parse (.list [.int 1, .int 2]) (.int 2))) ∧
      ((((Grammar.either (.bind (.many1 (.is (.str "a"))) overreaching)
        (.bind (.many1 (.is (.str "a"))) refusingMore)).parser (fun _ _ => .eof) ⟨0, .null⟩).run 4
          (.opened (.ofTokens threeTokens) .fresh)).final?.map Context.cache).map
            (fun c => c.producer.calls) = some 4 := by
  have hrules : ∀ (name : String) (args : List Value),
      ((fun _ _ => .eof : Rules) name args).Plain := fun _ _ => trivial
  have ha : (Grammar.many1 (.is (.str "a"))).Plain := ⟨trivial, trivial⟩
  have hf : ∀ v, (overreaching v).Plain := fun _ => ⟨trivial, trivial, trivial⟩
  have hg : ∀ v, (refusingMore v).Plain := fun _ => ⟨trivial, ⟨trivial, trivial⟩, trivial⟩
  have hsrc := Producer.delivers_ofTokens threeTokens
  have hs : State.InRange ⟨0, .null⟩ (Cache.fresh (.ofTokens threeTokens)) :=
    State.inRange_start _ _
  obtain ⟨⟨hresult, hcache⟩, -⟩ := left_factoring (fun _ _ => .eof) hrules _ ha _ _ hf hg _ _ hsrc 4
    (.opened (.ofTokens threeTokens) .fresh) ⟨[], rfl⟩ ⟨0, .null⟩ hs
  refine ⟨hrules, ha, hf, hg, hsrc, hs, hresult.trans ?_, ?_⟩
  · cbv
  · rw [hcache]
    cbv

end PullParse
