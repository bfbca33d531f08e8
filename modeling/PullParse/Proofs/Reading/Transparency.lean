import PullParse.Proofs.Reading.Instrumented
import PullParse.Proofs.Reading.Results

/-!
# The cache cannot be seen

Lookahead, abandoned alternatives and faults leave a cache at all sorts of fill
levels. None of them matters: whatever prefix of the stream a cache holds, a
grammar ends on it just as its reading of the stream does. So what is tried after
a mismatch finds the cache as good as new.
-/

namespace PullParse

/-- **The cache is invisible.** Over a producer that delivers a stream, a grammar that keeps to
its tokens ends on every cache as its reading of the stream by index does: with the same match
or mismatch, with the same fault, or not at all. So it does not matter how much of the stream
has been pulled before, and an alternative after a mismatch ends as it would have alone. -/
theorem parser_result_eq_reader (rules : Rules) (hrules : ∀ name args, (rules name args).Plain)
    (g : Grammar) (hg : g.Plain) (src : Producer) (t : TokenStream) (hsrc : src.Delivers t)
    (budget : Nat) (ctx : Context) (hctx : ctx.cache.Reached src) (s : State)
    (hs : s.InRange ctx.cache) :
    ((g.parser rules s).run budget ctx).result? =
        (g.reader rules t ctx.session.settings budget s).result ∧
      (∀ c : Cache, c.Reached src → s.InRange c →
        ((g.parser rules s).run budget ⟨c, ctx.session⟩).result? =
          ((g.parser rules s).run budget ctx).result?) ∧
      ∀ (h : Grammar) (ctx' : Context), h.Plain →
        (g.parser rules s).run budget ctx = .done .noMatch ctx' →
        (((g.either h).parser rules s).run budget ctx).result? =
          ((h.parser rules s).run budget ctx).result? := by
  have hholds := hctx.holds hsrc
  have hrun : ((g.parser rules s).run budget ctx).result? = _ :=
    (Grammar.reads hsrc hrules hg hholds hs).result?_eq
  refine ⟨hrun, ?_, ?_⟩
  · intro c hc hsc
    have hcholds : (Context.mk c ctx.session).cache.Holds src t := hc.holds hsrc
    rw [hrun]
    exact (Grammar.reads hsrc hrules hg hcholds hsc).result?_eq
  · intro h ctx' hh hmiss
    have heither : (g.either h).Plain := ⟨trivial, hg, hh⟩
    -- the reading of `g` does not match either, and the reading of `h` starts where it started
    rw [hmiss] at hrun
    rw [(Grammar.reads hsrc hrules heither hholds hs).result?_eq,
      (Grammar.reads hsrc hrules hh hholds hs).result?_eq]
    exact Grammar.result_either_noMatch hrun.symm

/-- Two tokens of one class and a third of another. -/
def threeTokens : List Token := [⟨.str "a", .int 1⟩, ⟨.str "a", .int 2⟩, ⟨.str "b", .int 3⟩]

/-- On a cache that is already filled to its end token, a repetition and the rule behind it match
as their reading says. -/
theorem parser_result_eq_reader_filled :
    (∀ (name : String) (args : List Value), ((fun _ _ => .anyToken : Rules) name args).Plain) ∧
      (Grammar.andThen (.many (.is (.str "a"))) (.call "last" [])).Plain ∧
      State.InRange ⟨1, .null⟩ ((Cache.fresh (.ofTokens threeTokens)).reads [0, 1, 2, 3]) ∧
      (((Grammar.andThen (.many (.is (.str "a"))) (.call "last" [])).parser (fun _ _ => .anyToken)
        ⟨1, .null⟩).run 5 ⟨(Cache.fresh (.ofTokens threeTokens)).reads [0, 1, 2, 3],
          Session.fresh⟩).result? = some (.ok (.matched (.int 3) ⟨3, .null⟩)) := by
  have hrules : ∀ (name : String) (args : List Value),
      ((fun _ _ => .anyToken : Rules) name args).Plain := fun _ _ => trivial
  have hg : (Grammar.andThen (.many (.is (.str "a"))) (.call "last" [])).Plain :=
    ⟨trivial, ⟨trivial, trivial⟩, trivial⟩
  have hs : State.InRange ⟨1, .null⟩
      ((Cache.fresh (.ofTokens threeTokens)).reads [0, 1, 2, 3]) := by decide +kernel
  have hreached : ((Cache.fresh (.ofTokens threeTokens)).reads [0, 1, 2, 3]).Reached
      (.ofTokens threeTokens) := ⟨_, rfl⟩
  refine ⟨hrules, hg, hs, ?_⟩
  refine (parser_result_eq_reader (fun _ _ => .anyToken) hrules _ hg (.ofTokens threeTokens) _
    (Producer.delivers_ofTokens threeTokens) 5 ⟨_, Session.fresh⟩ hreached _ hs).1.trans ?_
  cbv

end PullParse
