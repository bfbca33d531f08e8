import PullParse.Proofs.Entry.Conclusion
import PullParse.Proofs.Reading.Instrumented

/-!
# Laziness is exact

A parse pulls the tokens up to the last one that its grammar looks at, each of
them once and in order, and no token behind it, however the grammar goes back
and forth. What the grammar looks at is observed by marking every test of a
token in the journal, which changes nothing else about the parse.
-/

namespace PullParse

/-! ## The largest position -/

/-- Caches over one stream are the same if they are of the same length. -/
theorem Cache.Holds.eq_of_length {c c' : Cache} {src : Producer} {t : TokenStream}
    (h : c.Holds src t) (h' : c'.Holds src t) (hlength : c.length = c'.length) : c = c' := by
  have htokens := h.tokens
  have hpulls := h.pulls
  have hproducer := h.producer
  rw [hlength] at htokens hpulls hproducer
  rw [← h'.tokens] at htokens
  rw [← h'.pulls] at hpulls
  rw [← h'.producer] at hproducer
  cases c
  cases c'
  simp only [Array.toList_inj] at htokens
  simp only at hpulls hproducer
  rw [htokens, hpulls, hproducer]

/-! ## Parses -/

variable {src : Producer} {t : TokenStream}

/-- What is left of the context of a run that has ended. -/
theorem Run.Reads.looked {marks : Marks} {budget : Nat} {ctx ctx' : Context}
    {x : Run Context Outcome} {y : Reading Outcome}
    (h : Reads marks src t budget ctx Outcome.Same x y)
    (hfinal : (x.run budget ctx).final? = some ctx') :
    ctx.Looked marks src t y.examined ctx' := by
  unfold Reads at h
  generalize x.run budget ctx = e, y.result = result at h hfinal
  cases h with
  | done hl _ =>
      cases hfinal
      exact hl
  | raised hl =>
      cases hfinal
      exact hl
  | unfinished => cases hfinal

/-- The parser of a grammar with a mark at every test of a token. -/
def Grammar.marked (mark : Value) (rules : Rules) (g : Grammar) : Parser :=
  g.observed (.onTokens (Parser.traced mark)) rules

end PullParse
