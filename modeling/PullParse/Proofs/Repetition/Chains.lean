import PullParse.Proofs.Repetition.Loops
import PullParse.Proofs.Position.Onward
import PullParse.Proofs.Reading.Transparency

/-!
# Greedy chains

What `many` makes of a parser is a chain. The parser is run at a state, and while
it matches it is run again at the state that the match has left, in the context
that the match has left, so that nothing that happens on the way is lost. The
chain ends where the parser does not match, where it raises, or where it matches
without having moved although the guard is active. These ends exclude each other,
so there is one chain only, and it says where the parser is run and in which
order.
-/

namespace PullParse

/-- A state in which a parser is run, and the context that it is run in. -/
structure Visit where
  state : State
  context : Context

namespace Visit

def run (v : Visit) (p : Parser) (budget : Nat) : Ending Context Outcome :=
  (p v.state).run budget v.context

/-- The last visit of a chain, given the matches of the chain and the visits they lead to. -/
def last : Visit → List (Value × Visit) → Visit
  | v, [] => v
  | _, (_, v') :: links => v'.last links

/-- All visits of a chain, one more than it has matches. -/
def all (v : Visit) (links : List (Value × Visit)) : List Visit := v :: links.map Prod.snd

end Visit

/-- The parser matches again and again, each time where the match before has led. -/
inductive Chain (p : Parser) (budget : Nat) : Visit → List (Value × Visit) → Prop
  | nil {v} : Chain p budget v []
  | cons {v value v' links} (h : v.run p budget = .done (.matched value v'.state) v'.context)
      (hrest : Chain p budget v' links) : Chain p budget v ((value, v') :: links)

/-- The ends of a chain, by what the parser makes of the last visit. -/
inductive Stops (p : Parser) (budget : Nat) (guard : Bool) (values : List Value) (v : Visit) :
    Ending Context Outcome → Prop
  | noMatch {ctx} (h : v.run p budget = .done .noMatch ctx) :
      Stops p budget guard values v (.done (.matched (.list values) v.state) ctx)
  | stalled {value s' ctx} (h : v.run p budget = .done (.matched value s') ctx)
      (hguard : guard = true) (hposition : s'.position = v.state.position) :
      Stops p budget guard values v
        (.raised (.stalled (.str "many") (.int v.state.position)) ctx)
  | raised {fault ctx} (h : v.run p budget = .raised fault ctx) :
      Stops p budget guard values v (.raised fault ctx)

/-- Under the guard every match has moved. -/
def Moving (guard : Bool) (v : Visit) (links : List (Value × Visit)) : Prop :=
  guard = true → (v.all links).IsChain fun u u' => u'.state.position ≠ u.state.position

/-- A chain that goes on while it can, and how it ends. -/
structure Greedy (p : Parser) (budget : Nat) (guard : Bool) (v : Visit)
    (links : List (Value × Visit)) (e : Ending Context Outcome) : Prop where
  chain : Chain p budget v links
  moving : Moving guard v links
  stops : Stops p budget guard (links.map Prod.fst) (v.last links) e

variable {p q : Parser} {budget left : Nat} {guard : Bool} {v v' : Visit} {value : Value}
variable {values : List Value} {links links' : List (Value × Visit)}
variable {e e' : Ending Context Outcome}

theorem Moving.nil : Moving guard v [] := fun _ => .singleton _

theorem moving_cons :
    Moving guard v ((value, v') :: links) ↔
      (guard = true → v'.state.position ≠ v.state.position) ∧ Moving guard v' links := by
  simp only [Moving, Visit.all, List.map_cons, List.isChain_cons_cons]
  exact forall_and

/-! ## There is one greedy chain -/

/-- A chain does not stop at a match that may be followed. -/
theorem Stops.not_matched (h : Stops p budget guard values v e)
    (hmatched : v.run p budget = .done (.matched value v'.state) v'.context) :
    ¬(guard = true → v'.state.position ≠ v.state.position) := by
  intro hmoved
  cases h with
  | noMatch hrun => cases hmatched.symm.trans hrun
  | stalled hrun hguard hposition =>
      cases hmatched.symm.trans hrun
      exact hmoved hguard hposition
  | raised hrun => cases hmatched.symm.trans hrun

theorem Chain.unique (h : Chain p budget v links) (hmoving : Moving guard v links)
    (hstops : Stops p budget guard values (v.last links) e) (h' : Chain p budget v links')
    (hmoving' : Moving guard v links')
    {values' : List Value} (hstops' : Stops p budget guard values' (v.last links') e') :
    links' = links := by
  induction h generalizing links' with
  | nil =>
      cases h' with
      | nil => rfl
      | cons hmatched _ => exact (hstops.not_matched hmatched (moving_cons.mp hmoving').1).elim
  | @cons v value v₁ links hmatched _ ih =>
      cases h' with
      | nil => exact (hstops'.not_matched hmatched (moving_cons.mp hmoving).1).elim
      | @cons _ value' v₂ links' hmatched' h' =>
          -- both links are the one match of this visit, so they lead to the same next visit
          obtain ⟨state₁, context₁⟩ := v₁
          obtain ⟨state₂, context₂⟩ := v₂
          cases hmatched.symm.trans hmatched'
          rw [ih (moving_cons.mp hmoving).2 hstops h' (moving_cons.mp hmoving').2 hstops']

theorem Greedy.unique (h : Greedy p budget guard v links e)
    (h' : Greedy p budget guard v links' e') : links' = links :=
  h.chain.unique h.moving h.stops h'.chain h'.moving h'.stops

/-! ## The rounds of `many` -/

/-- One round, by what the parser makes of the visit. -/
theorem run_loop_many (p : Parser) (guard : Bool) (budget left : Nat) (v : Visit)
    (values : List Value) :
    ((Repetition.many p).loop guard (left + 1) v.state values).run budget v.context =
      (v.run p budget).andThen fun outcome ctx =>
        match outcome with
        | .noMatch => .done (.matched (.list values.reverse) v.state) ctx
        | .matched value s' =>
          if Parser.stalls guard v.state s' then .raised (Parser.stall "many" v.state) ctx
          else ((Repetition.many p).loop guard left s' (value :: values)).run budget ctx := by
  rw [Repetition.loop, Repetition.round, bind_assoc, Run.run_bind]
  refine congrArg ((v.run p budget).andThen ·) (funext fun outcome => funext fun ctx => ?_)
  cases outcome with
  | noMatch => rfl
  | matched value s' =>
      rw [pure_bind]
      dsimp only
      by_cases hstalls : Parser.stalls guard v.state s' = true
      · rw [if_pos hstalls, if_pos hstalls]
        rfl
      · rw [if_neg hstalls, if_neg hstalls]

/-- Rounds that come to an end have gone along a chain. The values collected before are kept newest
first, and stand in front of those of the chain. -/
theorem exists_chain (p : Parser) (guard : Bool) (budget left : Nat) (v : Visit)
    (values : List Value)
    (hfinished : ((Repetition.many p).loop guard left v.state values).run budget v.context ≠
      .unfinished) :
    ∃ links, links.length < left ∧ Chain p budget v links ∧ Moving guard v links ∧
      Stops p budget guard (values.reverse ++ links.map Prod.fst) (v.last links)
        (((Repetition.many p).loop guard left v.state values).run budget v.context) := by
  induction left generalizing v values with
  | zero => exact absurd rfl hfinished
  | succ left ih =>
      rw [run_loop_many] at hfinished ⊢
      cases hrun : v.run p budget with
      | done outcome ctx =>
          rw [hrun] at hfinished
          cases outcome with
          | noMatch =>
              refine ⟨[], Nat.succ_pos _, .nil, .nil, ?_⟩
              rw [List.map_nil, List.append_nil]
              exact .noMatch hrun
          | matched value s' =>
              simp only [Ending.andThen] at hfinished ⊢
              by_cases hstalls : Parser.stalls guard v.state s' = true
              · have hstalled : guard = true ∧ s'.position = v.state.position := by
                  simpa [Parser.stalls] using hstalls
                rw [if_pos hstalls]
                exact ⟨[], Nat.succ_pos _, .nil, .nil, .stalled hrun hstalled.1 hstalled.2⟩
              · rw [if_neg hstalls] at hfinished ⊢
                obtain ⟨links, hlength, hchain, hmoving, hstops⟩ :=
                  ih ⟨s', ctx⟩ (value :: values) hfinished
                have hmoved := Repetition.not_stalls_iff.mp hstalls
                refine ⟨(value, ⟨s', ctx⟩) :: links, Nat.succ_lt_succ hlength,
                  .cons hrun hchain, moving_cons.mpr ⟨hmoved, hmoving⟩, ?_⟩
                rw [List.reverse_cons, List.append_assoc] at hstops
                exact hstops
      | raised fault ctx => exact ⟨[], Nat.succ_pos _, .nil, .nil, .raised hrun⟩
      | unfinished =>
          rw [hrun] at hfinished
          exact absurd rfl hfinished

/-- What goes along a chain is the rounds. -/
theorem Chain.loop_eq (h : Chain p budget v links) (hmoving : Moving guard v links)
    (hstops : Stops p budget guard (values.reverse ++ links.map Prod.fst) (v.last links) e)
    (hlength : links.length < left) :
    ((Repetition.many p).loop guard left v.state values).run budget v.context = e := by
  obtain ⟨left, rfl⟩ : ∃ n, left = n + 1 := ⟨left - 1, by omega⟩
  induction h generalizing left values with
  | nil =>
      rw [run_loop_many]
      rw [List.map_nil, List.append_nil] at hstops
      cases hstops with
      | noMatch hrun =>
          rw [Visit.last] at hrun
          rw [hrun]
          rfl
      | stalled hrun hguard hposition =>
          rw [Visit.last] at hrun
          rw [hrun]
          exact if_pos (by simp [Parser.stalls, hguard, hposition, Visit.last])
      | raised hrun =>
          rw [Visit.last] at hrun
          rw [hrun]
          rfl
  | @cons v value v' links hrun _ ih =>
      rw [run_loop_many, hrun]
      simp only [Ending.andThen]
      rw [if_neg (Repetition.not_stalls_iff.mpr (moving_cons.mp hmoving).1)]
      obtain ⟨left, rfl⟩ : ∃ n, left = n + 1 := ⟨left - 1, by simp at hlength; omega⟩
      refine ih (moving_cons.mp hmoving).2 ?_ left (by simpa using hlength)
      rw [List.reverse_cons, List.append_assoc]
      exact hstops

theorem Parser.run_many (p : Parser) (v : Visit) (budget : Nat) :
    v.run p.many budget =
      ((Repetition.many p).loop v.context.isGuarded budget v.state []).run budget v.context := by
  have hstart : p.many v.state = (Repetition.many p).start v.state [] :=
    (Repetition.many p).parser_eq.1 rfl v.state
  rw [Visit.run, hstart, Repetition.run_start]

/-- A greedy chain with fewer matches than there may be rounds is what `many` does. -/
theorem Greedy.run_eq (h : Greedy p budget v.context.isGuarded v links e)
    (hlength : links.length < budget) : v.run p.many budget = e := by
  rw [Parser.run_many]
  refine h.chain.loop_eq h.moving ?_ hlength
  exact h.stops

/-! ## Where the parser is run -/

theorem Visit.last_mem (v : Visit) (links : List (Value × Visit)) : v.last links ∈ v.all links := by
  induction links generalizing v with
  | nil => exact List.mem_singleton_self v
  | cons link links ih => exact List.mem_cons_of_mem _ (ih link.2)

theorem Moving.take (h : Moving guard v links) (k : Nat) : Moving guard v (links.take k) := by
  intro hguard
  have hall : v.all (links.take k) = (v.all links).take (k + 1) := by
    simp [Visit.all, List.map_take]
  rw [hall]
  exact (h hguard).take _

/-- A parser that does the same at the first visits of a chain goes the same way so far. -/
theorem Chain.take (h : Chain p budget v links) {k : Nat}
    (hsame : ∀ u ∈ (v.all links).take k, u.run q budget = u.run p budget) :
    Chain q budget v (links.take k) := by
  induction h generalizing k with
  | nil =>
      rw [List.take_nil]
      exact .nil
  | @cons v value v' links hrun _ ih =>
      cases k with
      | zero => exact .nil
      | succ k =>
          have hhere := hsame v List.mem_cons_self
          refine .cons (hhere.trans hrun) (ih fun u hu => hsame u (List.mem_cons_of_mem _ hu))

theorem Stops.congr (h : Stops p budget guard values v e)
    (hsame : v.run q budget = v.run p budget) : Stops q budget guard values v e := by
  cases h with
  | noMatch hrun => exact .noMatch (hsame.trans hrun)
  | stalled hrun hguard hposition => exact .stalled (hsame.trans hrun) hguard hposition
  | raised hrun => exact .raised (hsame.trans hrun)

/-- A parser that does the same at every visit of a greedy chain has the same greedy chain. -/
theorem Greedy.congr (h : Greedy p budget guard v links e)
    (hsame : ∀ u ∈ v.all links, u.run q budget = u.run p budget) :
    Greedy q budget guard v links e := by
  have hchain : Chain q budget v (links.take links.length) :=
    h.chain.take fun u hu => hsame u (List.mem_of_mem_take hu)
  rw [List.take_length] at hchain
  exact ⟨hchain, h.moving, h.stops.congr (hsame _ (v.last_mem links))⟩

/-- A parser that does the same at the first visits of a greedy chain and raises at the next one
breaks the chain off there. -/
theorem Greedy.raised (h : Greedy p budget guard v links e) {k : Nat} {fault : Fault}
    {ctx : Context} (hsame : ∀ u ∈ (v.all links).take k, u.run q budget = u.run p budget)
    (hraised : (v.last (links.take k)).run q budget = .raised fault ctx) :
    Greedy q budget guard v (links.take k) (.raised fault ctx) :=
  ⟨h.chain.take hsame, h.moving.take k, .raised hraised⟩

/-- The chain of a grammar goes onward. -/
theorem Greedy.onward {rules : Rules} {g : Grammar}
    (h : Greedy (g.parser rules) budget true v links e) :
    (v.all links).IsChain fun u u' => u.state.position < u'.state.position := by
  obtain ⟨hchain, hmoving, -⟩ := h
  induction hchain with
  | nil => exact .singleton _
  | @cons v value v' links hrun _ ih =>
      obtain ⟨hmoved, hrest⟩ := moving_cons.mp hmoving
      have hle := Grammar.position_le rules g hrun
      exact List.isChain_cons_cons.mpr ⟨lt_of_le_of_ne hle (hmoved rfl).symm, ih hrest⟩

/-! ## What `many` does -/

/-- **`many` is the greedy chain of its parser.** A run that ends has gone along a chain of matches
and stopped there, and there is only one such chain: with the values of the chain where the parser
does not match, with the name and the position where it matches in place under the guard that was
active at the start, and with the fault of the parser where it raises. The parser is run at the
visits of the chain, one after the other, and nowhere else: what another parser does elsewhere makes
no difference, and a fault at one of them, after the same visits before, is the end. Under the guard
each match has moved, and onward for a grammar; without it a match in place is a match like others,
and only the parser itself raises. There is always a match, and without a single one of the parser
it is the empty list in the unchanged state. Every greedy chain is gone along if there may be as
many rounds. -/
theorem Parser.many_greedy (p : Parser) (v : Visit) (budget : Nat) :
    (∀ links e, Greedy p budget v.context.isGuarded v links e → links.length < budget →
        v.run p.many budget = e) ∧
      (v.run p.many budget ≠ .unfinished → ∃ links,
        Greedy p budget v.context.isGuarded v links (v.run p.many budget) ∧
        (∀ links' e, Greedy p budget v.context.isGuarded v links' e → links' = links) ∧
        (∀ q : Parser, (∀ u ∈ v.all links, u.run q budget = u.run p budget) →
          v.run q.many budget = v.run p.many budget) ∧
        (∀ (q : Parser) (k : Nat) (fault : Fault) (ctx : Context),
          (∀ u ∈ (v.all links).take k, u.run q budget = u.run p budget) →
            (v.last (links.take k)).run q budget = .raised fault ctx →
              v.run q.many budget = .raised fault ctx) ∧
        (∀ (rules : Rules) (g : Grammar), p = g.parser rules → v.context.isGuarded = true →
          (v.all links).IsChain fun u u' => u.state.position < u'.state.position) ∧
        (v.context.isGuarded = false → ∀ fault ctx, v.run p.many budget = .raised fault ctx →
          (v.last links).run p budget = .raised fault ctx) ∧
        (∀ ctx, v.run p.many budget ≠ .done .noMatch ctx) ∧
        (links = [] → ∀ value s ctx, v.run p.many budget = .done (.matched value s) ctx →
          value = .list [] ∧ s = v.state)) := by
  refine ⟨fun links e h hlength => h.run_eq hlength, fun hfinished => ?_⟩
  have hloop := p.run_many v budget
  obtain ⟨links, hlength, hchain, hmoving, hstops⟩ :=
    exists_chain p v.context.isGuarded budget budget v [] (hloop ▸ hfinished)
  rw [← hloop] at hstops
  have hgreedy : Greedy p budget v.context.isGuarded v links (v.run p.many budget) :=
    ⟨hchain, hmoving, hstops⟩
  refine ⟨links, hgreedy, fun links' e h => hgreedy.unique h, ?_, ?_, ?_, ?_, ?_, ?_⟩
  · intro q hsame
    exact (hgreedy.congr hsame).run_eq hlength
  · intro q k fault ctx hsame hraised
    exact (hgreedy.raised hsame hraised).run_eq ((List.length_take_le' k links).trans_lt hlength)
  · rintro rules g rfl hguard
    rw [hguard] at hgreedy
    exact hgreedy.onward
  · intro hguard fault ctx hraised
    rw [hraised, hguard] at hstops
    cases hstops with
    | stalled _ hactive _ => cases hactive
    | raised hrun => exact hrun
  · intro ctx hnoMatch
    rw [hnoMatch] at hstops
    cases hstops
  · rintro rfl value s ctx hmatched
    rw [hmatched] at hstops
    cases hstops
    exact ⟨rfl, rfl⟩

/-- The two items are taken, and the match in place behind them is the end under the guard. -/
theorem many_greedy_stalled :
    ∃ links,
      Visit.run ⟨⟨0, .null⟩, .opened (.ofTokens threeTokens) .fresh⟩
        ((Grammar.maybe (.is (.str "a"))).parser fun _ _ => .eof).many 4 ≠ .unfinished ∧
      (Visit.run ⟨⟨0, .null⟩, .opened (.ofTokens threeTokens) .fresh⟩
        ((Grammar.maybe (.is (.str "a"))).parser fun _ _ => .eof).many 4).result? =
          some (.error (.stalled (.str "many") (.int 2))) ∧
      (Visit.all ⟨⟨0, .null⟩, .opened (.ofTokens threeTokens) .fresh⟩ links).IsChain
        fun u u' => u.state.position < u'.state.position := by
  have hresult : (Visit.run ⟨⟨0, .null⟩, .opened (.ofTokens threeTokens) .fresh⟩
      ((Grammar.maybe (.is (.str "a"))).parser fun _ _ => .eof).many 4).result? =
        some (.error (.stalled (.str "many") (.int 2))) := by cbv
  have hfinished : Visit.run ⟨⟨0, .null⟩, .opened (.ofTokens threeTokens) .fresh⟩
      ((Grammar.maybe (.is (.str "a"))).parser fun _ _ => .eof).many 4 ≠ .unfinished := by
    intro h
    rw [h] at hresult
    cases hresult
  obtain ⟨links, -, -, -, -, honward, -⟩ := (Parser.many_greedy
    ((Grammar.maybe (.is (.str "a"))).parser fun _ _ => .eof)
    ⟨⟨0, .null⟩, .opened (.ofTokens threeTokens) .fresh⟩ 4).2 hfinished
  exact ⟨links, hfinished, hresult, honward (fun _ _ => .eof) _ rfl rfl⟩

end PullParse
