import PullParse.Proofs.Reading.Instrumented
import PullParse.Proofs.Repetition.Chains
import PullParse.Proofs.Repetition.Family
import PullParse.Script.Expr

/-!
# Counted repetitions

A count makes its rounds without a guard and stops for one of two reasons: it has
made all of them, or the parser has not matched. Its rounds are the beginning of
the chain that `many` goes along, so a count takes the first values of `many` if
there are enough of them and does not match otherwise. Two counts one after the
other are one count.
-/

namespace PullParse

namespace Parser

open Repetition (replacing fmap_eq run_replacing)

/-! ## Counts one after the other -/

/-- Puts a list behind another one. -/
def joined (xs ys : Value) : Action Value := .ofExcept (Expr.sumOf xs ys)

theorem replacing_joined_list (xs ys : List Value) (s : State) :
    replacing (joined (.list xs)) (.matched (.list ys) s) =
      pure (.matched (.list (xs ++ ys)) s) := by
  ext budget ctx
  exact run_replacing rfl s budget ctx

/-- Joining twice is joining once. -/
theorem replacing_joined (xs ys : List Value) (outcome : Outcome) :
    replacing (joined (.list ys)) outcome >>= replacing (joined (.list xs)) =
      replacing (joined (.list (xs ++ ys))) outcome := by
  cases outcome with
  | noMatch => rfl
  | matched value s =>
      cases value with
      | list zs =>
          rw [replacing_joined_list, pure_bind, replacing_joined_list, replacing_joined_list,
            List.append_assoc]
      | _ => rfl

/-- The values collected before come in front of those of the rounds that are left. -/
theorem countRounds_collected (p : Parser) (n : Nat) (s : State) (collected : List Value) :
    countRounds p n s collected =
      countRounds p n s [] >>= replacing (joined (.list collected.reverse)) := by
  induction n generalizing s collected with
  | zero =>
      rw [countRounds, countRounds, pure_bind, replacing_joined_list]
      simp
  | succ n ih =>
      rw [countRounds, countRounds, bind_assoc]
      refine congrArg (p s >>= ·) (funext fun outcome => ?_)
      cases outcome with
      | noMatch => rfl
      | matched value s' =>
          dsimp only
          rw [ih s' (value :: collected), ih s' [value], bind_assoc]
          refine congrArg (countRounds p n s' [] >>= ·) (funext fun rest => ?_)
          rw [replacing_joined, List.reverse_cons, List.reverse_singleton]

/-- What follows the first rounds of a count: the rounds that are left, with the values so far in
front. -/
theorem countRounds_add (p : Parser) (m n : Nat) (s : State) (collected : List Value) :
    countRounds p (m + n) s collected = countRounds p m s collected >>= fun
      | .matched xs s' => (count n p).fmap (joined xs) s'
      | .noMatch => return .noMatch := by
  induction m generalizing s collected with
  | zero =>
      rw [Nat.zero_add, countRounds_collected, countRounds, pure_bind]
      exact (fmap_eq (joined (.list collected.reverse)) (count n p) s).symm
  | succ m ih =>
      rw [Nat.succ_add, countRounds, countRounds, bind_assoc]
      refine congrArg (p s >>= ·) (funext fun outcome => ?_)
      cases outcome with
      | noMatch => rfl
      | matched value s' => exact ih s' (value :: collected)

/-- A count of a sum is the two counts one after the other, with their lists joined. -/
theorem count_add (p : Parser) (m n : Nat) :
    count (m + n) p = (count m p).bind fun xs => (count n p).fmap (joined xs) := by
  funext s
  exact countRounds_add p m n s []

end Parser

/-! ## Where the parser is run -/

/-- The ends of a count of `n`, by the chain of its matches: all rounds have been made, or the
parser has done something else than match at the last visit. -/
inductive Counted (p : Parser) (budget n : Nat) (values : List Value) (v : Visit)
    (links : List (Value × Visit)) : Ending Context Outcome → Prop
  | complete (hlength : links.length = n) :
      Counted p budget n values v links
        (.done (.matched (.list values) (v.last links).state) (v.last links).context)
  | short {e} (hlength : links.length < n) (hlast : (v.last links).run p budget = e)
      (hmissed : ∀ value s ctx, e ≠ .done (.matched value s) ctx) :
      Counted p budget n values v links e

variable {p q : Parser} {budget n : Nat} {v v' : Visit} {value : Value} {values : List Value}
variable {links links' : List (Value × Visit)} {e e' : Ending Context Outcome}

/-- One round of a count. -/
theorem run_countRounds (p : Parser) (budget n : Nat) (v : Visit) (values : List Value) :
    (Parser.countRounds p (n + 1) v.state values).run budget v.context =
      (v.run p budget).andThen fun outcome ctx =>
        match outcome with
        | .noMatch => .done .noMatch ctx
        | .matched value s' => (Parser.countRounds p n s' (value :: values)).run budget ctx := by
  rw [Parser.countRounds, Run.run_bind]
  refine congrArg ((v.run p budget).andThen ·) (funext fun outcome => funext fun ctx => ?_)
  cases outcome with
  | noMatch => rfl
  | matched value s' => rfl

/-- One more match in front. -/
theorem Counted.cons (h : Counted p budget n values v' links e) :
    Counted p budget (n + 1) values v ((value, v') :: links) e := by
  cases h with
  | complete hlength => exact .complete (congrArg Nat.succ hlength)
  | short hlength hlast hmissed => exact .short (Nat.succ_lt_succ hlength) hlast hmissed

/-- Every count goes along a chain. -/
theorem exists_counted (p : Parser) (budget n : Nat) (v : Visit) (values : List Value) :
    ∃ links, Chain p budget v links ∧
      Counted p budget n (values.reverse ++ links.map Prod.fst) v links
        ((Parser.countRounds p n v.state values).run budget v.context) := by
  induction n generalizing v values with
  | zero =>
      refine ⟨[], .nil, ?_⟩
      rw [List.map_nil, List.append_nil]
      exact .complete rfl
  | succ n ih =>
      rw [run_countRounds]
      cases hrun : v.run p budget with
      | done outcome ctx =>
          cases outcome with
          | noMatch => exact ⟨[], .nil, .short n.succ_pos hrun nofun⟩
          | matched value s' =>
              obtain ⟨links, hchain, hcounted⟩ := ih ⟨s', ctx⟩ (value :: values)
              rw [List.reverse_cons, List.append_assoc] at hcounted
              exact ⟨(value, ⟨s', ctx⟩) :: links, .cons hrun hchain, hcounted.cons⟩
      | raised fault ctx => exact ⟨[], .nil, .short n.succ_pos hrun nofun⟩
      | unfinished => exact ⟨[], .nil, .short n.succ_pos hrun nofun⟩

/-- What goes along a chain is the count. -/
theorem Chain.countRounds_eq (h : Chain p budget v links)
    (hcounted : Counted p budget n (values.reverse ++ links.map Prod.fst) v links e) :
    (Parser.countRounds p n v.state values).run budget v.context = e := by
  induction h generalizing n values with
  | @nil v =>
      cases hcounted with
      | complete hlength =>
          obtain rfl : n = 0 := hlength.symm
          rw [List.map_nil, List.append_nil]
          rfl
      | short hlength hlast hmissed =>
          obtain ⟨n, rfl⟩ : ∃ m, n = m + 1 := ⟨n - 1, by simp at hlength; omega⟩
          rw [Visit.last] at hlast
          rw [run_countRounds, hlast]
          cases e with
          | done outcome ctx =>
              cases outcome with
              | noMatch => rfl
              | matched value s => exact absurd rfl (hmissed value s ctx)
          | raised fault ctx => rfl
          | unfinished => rfl
  | @cons v value v' links hrun _ ih =>
      -- either end leaves room for this match
      obtain ⟨n, rfl⟩ : ∃ m, n = m + 1 := by
        cases hcounted with
        | complete hlength => exact ⟨links.length, hlength.symm⟩
        | short hlength => exact ⟨n - 1, by simp at hlength; omega⟩
      have hbehind :
          Counted p budget n ((value :: values).reverse ++ links.map Prod.fst) v' links e := by
        rw [List.reverse_cons, List.append_assoc]
        cases hcounted with
        | complete hlength => exact .complete (Nat.succ.inj hlength)
        | short hlength hlast hmissed => exact .short (Nat.lt_of_succ_lt_succ hlength) hlast hmissed
      rw [run_countRounds, hrun]
      exact ih hbehind

theorem Parser.run_count (p : Parser) (budget n : Nat) (v : Visit) :
    v.run (Parser.count n p) budget =
      (Parser.countRounds p n v.state []).run budget v.context := rfl

/-- A chain with its end is what a count does. -/
theorem Chain.count_eq (h : Chain p budget v links)
    (hcounted : Counted p budget n (links.map Prod.fst) v links e) :
    v.run (Parser.count n p) budget = e := by
  rw [Parser.run_count]
  exact h.countRounds_eq hcounted

theorem Counted.length_le (h : Counted p budget n values v links e) : links.length ≤ n := by
  cases h with
  | complete hlength => exact hlength.le
  | short hlength => exact hlength.le

/-- A parser that does the same where the count has run it makes the same count. -/
theorem Counted.congr (h : Counted p budget n values v links e)
    (hsame : ∀ u ∈ (v.all links).take n, u.run q budget = u.run p budget) :
    Counted q budget n values v links e := by
  cases h with
  | complete hlength => exact .complete hlength
  | short hlength hlast hmissed =>
      refine .short hlength ?_ hmissed
      rw [List.take_of_length_le (by simpa [Visit.all] using hlength)] at hsame
      exact (hsame _ (v.last_mem links)).trans hlast

/-- The first matches of a chain with fewer rounds than that. -/
theorem Chain.count_take (h : Chain p budget v links) (hle : n ≤ links.length) :
    v.run (Parser.count n p) budget =
      .done (.matched (.list ((links.map Prod.fst).take n)) (v.last (links.take n)).state)
        (v.last (links.take n)).context := by
  have htake : Chain p budget v (links.take n) := h.take fun _ _ => rfl
  rw [← List.map_take]
  exact htake.count_eq (.complete (by simpa using hle))

/-- A `many` that matches has gone along a chain up to a mismatch. -/
theorem Parser.chain_of_many {s : State} {ctx : Context}
    (h : v.run p.many budget = .done (.matched (.list values) s) ctx) :
    ∃ links, Chain p budget v links ∧ values = links.map Prod.fst ∧ s = (v.last links).state ∧
      (v.last links).run p budget = .done .noMatch ctx := by
  have hfinished : v.run p.many budget ≠ .unfinished := by
    rw [h]
    nofun
  rw [Parser.run_many] at hfinished h
  obtain ⟨links, -, hchain, -, hstops⟩ :=
    exists_chain p v.context.isGuarded budget budget v [] hfinished
  rw [h] at hstops
  cases hstops with
  | noMatch hlast => exact ⟨links, hchain, rfl, rfl, hlast⟩

/-- A run of a count gives the same on all caches of a well-behaved producer, however far they are
filled. -/
theorem Grammar.count_result?_eq {rules : Rules} (hrules : ∀ name args, (rules name args).Plain)
    {g : Grammar} (hg : g.Plain) {src : Producer} {t : TokenStream} (hsrc : src.Delivers t)
    {ctx ctx' : Context} (hctx : ctx.cache.Reached src) (hctx' : ctx'.cache.Reached src)
    (hsettings : ctx'.session.settings = ctx.session.settings) {s : State}
    (hs : s.InRange ctx.cache) (hs' : s.InRange ctx'.cache) (n : Int) :
    ((Parser.count n (g.parser rules) s).run budget ctx').result? =
      ((Parser.count n (g.parser rules) s).run budget ctx).result? := by
  have hreads : Parser.ReadsAs .any src t ctx.session.settings budget (g.parser rules)
      (g.reader rules t ctx.session.settings budget) := by
    intro s' ctx'' hstands hrange
    rw [← hstands.settings_eq]
    exact Grammar.reads hsrc hrules hg hstands.holds hrange
  have hcount := hreads.count n
  rw [(hcount s ctx ⟨hctx.holds hsrc, rfl⟩ hs).result?_eq,
    (hcount s ctx' ⟨hctx'.holds hsrc, hsettings⟩ hs').result?_eq]

/-- **A count is the exact beginning of a repetition.** A count of a sum is the two counts one after
the other with their lists joined, in everything that a run shows. A count of `n` goes along the
chain of the matches of its parser. It has a match if and only if the chain has all `n` links, and
then the parser has been run at `n` visits; otherwise the count ends as the parser does at the first
visit where it does not match. What another parser does at visits beyond these makes no difference,
and a fault at one of them is the end of the count. Where `many` matches with a list of values, a
count of at most as many has the first of these values, and the state behind it for all of them; a
count of more does not match. For a grammar over a producer that delivers a stream the count gives
the same on every cache of the producer, as one of them that the `many` has filled. -/
theorem Parser.count_exact (p : Parser) (m n : Nat) (v : Visit) (budget : Nat) :
    Parser.count (m + n) p =
        ((Parser.count m p).bind fun xs => (Parser.count n p).fmap (Parser.joined xs)) ∧
      (∃ links, Chain p budget v links ∧
        Counted p budget n (links.map Prod.fst) v links (v.run (Parser.count n p) budget) ∧
        (∀ q : Parser, (∀ u ∈ (v.all links).take n, u.run q budget = u.run p budget) →
          v.run (Parser.count n q) budget = v.run (Parser.count n p) budget) ∧
        ∀ (q : Parser) (k : Nat) (fault : Fault) (ctx : Context), k < n →
          (∀ u ∈ (v.all links).take k, u.run q budget = u.run p budget) →
            (v.last (links.take k)).run q budget = .raised fault ctx →
              v.run (Parser.count n q) budget = .raised fault ctx) ∧
      ∀ values s ctx, v.run p.many budget = .done (.matched (.list values) s) ctx →
        (n ≤ values.length → ∃ s' ctx',
          v.run (Parser.count n p) budget = .done (.matched (.list (values.take n)) s') ctx' ∧
            (n = values.length → s' = s)) ∧
        (values.length < n → v.run (Parser.count n p) budget = .done .noMatch ctx) ∧
        ∀ (rules : Rules) (g : Grammar) (src : Producer) (t : TokenStream), p = g.parser rules →
          (∀ name args, (rules name args).Plain) → g.Plain → src.Delivers t →
          v.context.cache.Reached src → v.state.InRange v.context.cache →
          ∀ ctx', ctx'.cache.Reached src → v.state.InRange ctx'.cache →
            ctx'.session.settings = v.context.session.settings →
            ((Parser.count n p v.state).run budget ctx').result? =
              (v.run (Parser.count n p) budget).result? := by
  refine ⟨Parser.count_add p m n, ?_, fun values s ctx hmany => ?_⟩
  · obtain ⟨links, hchain, hcounted⟩ := exists_counted p budget n v []
    rw [List.reverse_nil, List.nil_append, ← Parser.run_count] at hcounted
    have hle := hcounted.length_le
    refine ⟨links, hchain, hcounted, fun q hsame => ?_, fun q k fault ctx hk hsame hraised => ?_⟩
    · have hchain' : Chain q budget v (links.take links.length) :=
        hchain.take fun u hu => hsame u (List.take_subset_take_left _ hle hu)
      rw [List.take_length] at hchain'
      exact hchain'.count_eq (hcounted.congr hsame)
    · exact (hchain.take hsame).count_eq
        (.short ((List.length_take_le k links).trans_lt hk) hraised nofun)
  · obtain ⟨links, hchain, rfl, rfl, hlast⟩ := Parser.chain_of_many hmany
    refine ⟨fun hle => ?_, fun hlt => ?_, ?_⟩
    · rw [List.length_map] at hle
      refine ⟨_, _, hchain.count_take hle, fun heq => ?_⟩
      rw [List.length_map] at heq
      rw [heq, List.take_length]
    · rw [List.length_map] at hlt
      exact hchain.count_eq (.short hlt hlast nofun)
    · rintro rules g src t rfl hrules hg hsrc hctx hs ctx' hctx' hs' hsettings
      exact Grammar.count_result?_eq hrules hg hsrc hctx hctx' hsettings hs hs' n

/-- Two items are in front of the third token, so two is the last count that matches, also where all
the tokens have been pulled before. -/
theorem count_exact_items :
    (∀ (name : String) (args : List Value), ((fun _ _ => .eof : Rules) name args).Plain) ∧
      (Grammar.is (.str "a")).Plain ∧
      (Producer.ofTokens threeTokens).Delivers (.ofList threeTokens) ∧
      State.InRange ⟨0, .null⟩ (Cache.fresh (.ofTokens threeTokens)) ∧
      State.InRange ⟨0, .null⟩ ((Cache.fresh (.ofTokens threeTokens)).reads [0, 1, 2, 3]) ∧
      (Visit.run ⟨⟨0, .null⟩, .opened (.ofTokens threeTokens) .fresh⟩
        ((Grammar.is (.str "a")).parser fun _ _ => .eof).many 4).result? =
          some (.ok (.matched (.list [.int 1, .int 2]) ⟨2, .null⟩)) ∧
      (Visit.run ⟨⟨0, .null⟩, .opened (.ofTokens threeTokens) .fresh⟩
        (Parser.count 2 ((Grammar.is (.str "a")).parser fun _ _ => .eof)) 4).result? =
          some (.ok (.matched (.list [.int 1, .int 2]) ⟨2, .null⟩)) ∧
      (Visit.run ⟨⟨0, .null⟩, .opened (.ofTokens threeTokens) .fresh⟩
        (Parser.count 3 ((Grammar.is (.str "a")).parser fun _ _ => .eof)) 4).result? =
          some (.ok .noMatch) ∧
      (Visit.run ⟨⟨0, .null⟩, ⟨(Cache.fresh (.ofTokens threeTokens)).reads [0, 1, 2, 3], .fresh⟩⟩
        (Parser.count 2 ((Grammar.is (.str "a")).parser fun _ _ => .eof)) 4).result? =
          some (.ok (.matched (.list [.int 1, .int 2]) ⟨2, .null⟩)) := by
  have hrules : ∀ (name : String) (args : List Value),
      ((fun _ _ => .eof : Rules) name args).Plain := fun _ _ => trivial
  have hg : (Grammar.is (.str "a")).Plain := trivial
  have hsrc := Producer.delivers_ofTokens threeTokens
  have hs : State.InRange ⟨0, .null⟩ (Cache.fresh (.ofTokens threeTokens)) :=
    State.inRange_start _ _
  have hs' : State.InRange ⟨0, .null⟩
      ((Cache.fresh (.ofTokens threeTokens)).reads [0, 1, 2, 3]) := by decide +kernel
  have hmany : (Visit.run ⟨⟨0, .null⟩, .opened (.ofTokens threeTokens) .fresh⟩
      ((Grammar.is (.str "a")).parser fun _ _ => .eof).many 4).result? =
        some (.ok (.matched (.list [.int 1, .int 2]) ⟨2, .null⟩)) := by cbv
  obtain ⟨ctx, hrun⟩ := Ending.exists_done_of_result? hmany
  have hcount := fun n => (Parser.count_exact ((Grammar.is (.str "a")).parser fun _ _ => .eof) 0 n
    ⟨⟨0, .null⟩, .opened (.ofTokens threeTokens) .fresh⟩ 4).2.2 _ _ ctx hrun
  obtain ⟨htwo, -, hcaches⟩ := hcount 2
  obtain ⟨s, ctx', hmatched, hstate⟩ := htwo le_rfl
  obtain rfl := hstate rfl
  refine ⟨hrules, hg, hsrc, hs, hs', hmany, ?_, ?_, ?_⟩
  · exact congrArg Ending.result? hmatched
  · exact congrArg Ending.result? ((hcount 3).2.1 (by decide))
  · exact (hcaches (fun _ _ => .eof) _ _ _ rfl hrules hg hsrc ⟨[], rfl⟩ hs
      ⟨(Cache.fresh (.ofTokens threeTokens)).reads [0, 1, 2, 3], .fresh⟩ ⟨_, rfl⟩ hs' rfl).trans
        (congrArg Ending.result? hmatched)

end PullParse
