import PullParse.Proofs.Repetition.Loops

/-!
# Repetitions from one repetition

All repetitions but the one with a terminator can be written with `many`. A
repetition with a mandatory match is that match with a repetition behind it, one
that skips forgets the values, and one with a separator repeats the separator
and the element behind it. What is written so makes the same rounds in the same
contexts, and the values differ only by the function that is applied to them.
The one thing that can be told apart is the name under which a round without
progress stalls. Where `many` goes by the name of the repetition, both are the
same parser.
-/

namespace PullParse

/-! ## Endings up to a name -/

/-- The same result, or a stalled repetition that goes by another name. -/
inductive Renamed (name name' : String) {α : Type} :
    Option (Except Fault α) → Option (Except Fault α) → Prop
  | same (result : Option (Except Fault α)) : Renamed name name' result result
  | stalled (position : Value) :
      Renamed name name' (some (.error (.stalled (.str name) position)))
        (some (.error (.stalled (.str name') position)))

namespace Ending

variable {σ α β : Type} {name name' : String}

/-- The endings leave the same behind, and the results differ at most in the name under which a
repetition has stalled. -/
structure SameBut (name name' : String) (e e' : Ending σ α) : Prop where
  result : Renamed name name' e.result? e'.result?
  final : e.final? = e'.final?

namespace SameBut

theorem refl (e : Ending σ α) : e.SameBut name name' e := ⟨.same _, rfl⟩

theorem stalled (position : Value) (s : σ) :
    SameBut name name' (.raised (.stalled (.str name) position) s : Ending σ α)
      (.raised (.stalled (.str name') position) s) :=
  ⟨.stalled position, rfl⟩

/-- Endings that differ at all are those of a stalled repetition. -/
theorem eq_or_stalled {e e' : Ending σ α} (h : e.SameBut name name' e') :
    e = e' ∨ ∃ position s, e = .raised (.stalled (.str name) position) s ∧
      e' = .raised (.stalled (.str name') position) s := by
  obtain ⟨hresult, hfinal⟩ := h
  cases e with
  | done a s =>
      cases e' with
      | done a' s' =>
          cases hfinal
          cases hresult
          exact .inl rfl
      | raised fault s' => cases hresult
      | unfinished => cases hfinal
  | raised fault s =>
      cases e' with
      | done a' s' => cases hresult
      | raised fault' s' =>
          cases hfinal
          cases hresult with
          | same => exact .inl rfl
          | stalled position => exact .inr ⟨position, s, rfl, rfl⟩
      | unfinished => cases hfinal
  | unfinished =>
      cases e' with
      | done a' s' => cases hfinal
      | raised fault' s' => cases hfinal
      | unfinished => exact .inl rfl

/-- Before the same end. -/
theorem before {e e' : Ending σ α} (h : e.SameBut name name' e') (f : α → σ → Ending σ β) :
    (e.andThen f).SameBut name name' (e'.andThen f) := by
  rcases h.eq_or_stalled with rfl | ⟨position, s, rfl, rfl⟩
  · exact refl _
  · exact stalled position s

/-- After the same beginning. -/
theorem andThen (e : Ending σ α) {f g : α → σ → Ending σ β}
    (h : ∀ a s, (f a s).SameBut name name' (g a s)) :
    (e.andThen f).SameBut name name' (e.andThen g) := by
  cases e with
  | done a s => exact h a s
  | raised fault s => exact refl _
  | unfinished => exact refl _

end SameBut

end Ending

/-! ## The value of a loop -/

namespace Repetition

/-- What the value of a match is replaced by. -/
def replacing (f : Value → Action Value) : Outcome → Run Context Outcome
  | .matched value s => Parser.ofAction (return Parser.pure (← f value)) s
  | .noMatch => return .noMatch

theorem fmap_eq (f : Value → Action Value) (p : Parser) (s : State) :
    p.fmap f s = p s >>= replacing f := by
  refine congrArg (p s >>= ·) (funext fun outcome => ?_)
  cases outcome with
  | matched value s' => rfl
  | noMatch => rfl

/-- A function that gives a value without a note replaces the value, and does nothing else. -/
theorem run_replacing {f : Value → Action Value} {value value' : Value}
    (h : f value = pure value') (s : State) (budget : Nat) (ctx : Context) :
    (replacing f (.matched value s)).run budget ctx = .done (.matched value' s) ctx := by
  rw [replacing, h]
  rfl

/-- A round with a separator is a match of the separator with the element behind it. -/
theorem round_sepBy1 (p sep : Parser) : (sepBy1 p sep).round = (many (sep.andThen p)).round := by
  rw [round, round]
  funext s
  rw [Parser.andThen, bind_assoc]
  refine congrArg (sep s >>= ·) (funext fun outcome => ?_)
  cases outcome with
  | noMatch => rfl
  | matched _ between => rfl

end Repetition

/-! ## Repetitions under a name -/

namespace Parser

open Repetition (replacing fmap_eq run_replacing)

/-- Puts a value in front of a list. -/
def prepended (value : Value) : Value → Action Value
  | .list values => return .list (value :: values)
  | _ => .raise (.badOperands "add")

/-- `many` that goes by another name where it stalls. -/
def manyAs (name : String) (p : Parser) : Parser := fun s => do
  let (values, s') ← repeated name p s
  return .matched (.list values) s'

/-- `many1` that goes by another name where it stalls: a match with a `many` behind it. -/
def many1As (name : String) (p : Parser) : Parser :=
  p.bind fun x => (p.manyAs name).fmap (prepended x)

variable {name name' : String} {p q : Parser} {s : State} {budget : Nat} {ctx : Context}

/-- A function that gives a value for every list is applied to the values of the rounds. -/
theorem manyAs_fmap (name : String) (p : Parser) (f : Value → Action Value)
    (g : List Value → Value) (h : ∀ values, f (.list values) = pure (g values)) (s : State) :
    (p.manyAs name).fmap f s = (do
      let all ← repeated name p s
      return .matched (g all.1) all.2) := by
  rw [fmap_eq, manyAs, bind_assoc]
  refine congrArg (repeated name p s >>= ·) (funext fun all => ?_)
  ext budget ctx
  exact run_replacing (h all.1) all.2 budget ctx

/-- A repetition with a mandatory first match is that match with a `many` of its name behind it that
makes the same rounds. -/
theorem mandatory_eq (r : Repetition) (hfirst : r.first? = some p)
    (hround : r.round = (Repetition.many q).round) (hresult : r.result = .list) :
    r.parser = p.bind fun x => (q.manyAs r.name).fmap (prepended x) := by
  funext s
  rw [r.parser_eq.2 p hfirst s, Parser.bind]
  refine Repetition.behind_first rfl fun x s' => ?_
  show r.start s' [x] = (q.manyAs r.name).fmap (prepended x) s'
  have hstart := r.repeated_eq_start q hround [x] s'
  rw [hresult] at hstart
  rw [manyAs_fmap r.name q (prepended x) (fun values => .list (x :: values)) (fun _ => rfl)]
  exact hstart.symm

theorem many1_eq (p : Parser) : p.many1 = p.many1As "many1" :=
  mandatory_eq (.many1 p) rfl rfl rfl

theorem sepBy1_eq (p sep : Parser) :
    p.sepBy1 sep = p.bind fun x => ((sequence sep p []).manyAs "sep_by1").fmap (prepended x) :=
  mandatory_eq (.sepBy1 p sep) rfl (Repetition.round_sepBy1 p sep) rfl

theorem skipMany_eq (p : Parser) :
    p.skipMany = (p.manyAs "skip_many").fmap fun _ => return .null :=
  funext fun s => (manyAs_fmap "skip_many" p _ (fun _ => .null) (fun _ => rfl) s).symm

theorem skipMany1_eq (p : Parser) :
    p.skipMany1 = (p.many1As "skip_many1").fmap fun _ => return .null := by
  funext s
  rw [fmap_eq, many1As, Parser.bind, bind_assoc, skipMany1]
  refine Repetition.behind_first rfl fun x s' => ?_
  show _ = (p.manyAs "skip_many1").fmap (prepended x) s' >>= _
  rw [manyAs_fmap "skip_many1" p (prepended x) (fun values => .list (x :: values)) (fun _ => rfl),
    bind_assoc]
  rfl

/-! ## The family -/

/-- The rounds are the same under all names. -/
theorem rounds_sameBut (name name' : String) (guard : Bool) (p : Parser) (budget left : Nat)
    (s : State) (collected : List Value) (ctx : Context) :
    ((rounds name guard p left s collected).run budget ctx).SameBut name name'
      ((rounds name' guard p left s collected).run budget ctx) := by
  induction left generalizing s collected ctx with
  | zero => exact .refl _
  | succ left ih =>
      rw [rounds, rounds, Run.run_bind, Run.run_bind]
      refine .andThen _ fun outcome ctx' => ?_
      cases outcome with
      | noMatch => exact .refl _
      | matched value s' =>
          by_cases hstalls : stalls guard s s' = true
          · simp only [if_pos hstalls]
            exact .stalled _ _
          · simp only [if_neg hstalls]
            exact ih s' (value :: collected) ctx'

theorem manyAs_sameBut (name name' : String) (p : Parser) (s : State) (budget : Nat)
    (ctx : Context) :
    ((p.manyAs name s).run budget ctx).SameBut name name' ((p.manyAs name' s).run budget ctx) := by
  rw [manyAs, manyAs, Run.run_bind, Run.run_bind]
  exact (rounds_sameBut name name' ctx.isGuarded p budget budget s [] ctx).before _

/-- What is done with the value does not matter. -/
theorem sameBut_fmap (f : Value → Action Value)
    (h : ((p s).run budget ctx).SameBut name name' ((q s).run budget ctx)) :
    ((p.fmap f s).run budget ctx).SameBut name name' ((q.fmap f s).run budget ctx) := by
  rw [fmap_eq, fmap_eq, Run.run_bind, Run.run_bind]
  exact h.before _

/-- What follows a first match decides. -/
theorem sameBut_behind {f g : Value → Parser}
    (h : ∀ value s ctx, ((f value s).run budget ctx).SameBut name name'
      ((g value s).run budget ctx)) :
    ((p.bind f s).run budget ctx).SameBut name name' ((p.bind g s).run budget ctx) := by
  rw [Parser.bind, Parser.bind, Run.run_bind, Run.run_bind]
  refine .andThen _ fun outcome ctx' => ?_
  cases outcome with
  | matched value s' => exact h value s' ctx'
  | noMatch => exact .refl _

/-- A match with a `many` behind it is the same under all names. -/
theorem mandatory_sameBut (name name' : String) (p q : Parser) (s : State) (budget : Nat)
    (ctx : Context) :
    (((p.bind fun x => (q.manyAs name).fmap (prepended x)) s).run budget ctx).SameBut name name'
      (((p.bind fun x => (q.manyAs name').fmap (prepended x)) s).run budget ctx) :=
  sameBut_behind fun x s' ctx' =>
    sameBut_fmap (prepended x) (manyAs_sameBut name name' q s' budget ctx')

/-- **Every repetition without a terminator is written with `many`.** A mandatory first match is
that match with the repetition behind it, skipping forgets the values, and a separator is repeated
together with the element behind it, so that one without an element is given back with all that it
did to the user data. Whatever the parsers do to the context, both forms end in the same way: with
the same match, mismatch or fault, in the same state, and in the same context, with its cache, its
settings and its journal. Only a stalled round shows by its name which of them was used: the two
forms are equal where `many` stalls under the name of the repetition that is written with it. -/
theorem repetitions_by_many (p sep : Parser) (s : State) (budget : Nat) (ctx : Context) :
    (p.many = p.manyAs "many" ∧
      p.many1 = (p.bind fun x => (p.manyAs "many1").fmap (prepended x)) ∧
      p.skipMany = ((p.manyAs "skip_many").fmap fun _ => return .null) ∧
      p.skipMany1 = ((p.many1As "skip_many1").fmap fun _ => return .null) ∧
      p.sepBy1 sep =
        p.bind fun x => ((sequence sep p []).manyAs "sep_by1").fmap (prepended x)) ∧
      ((p.many1 s).run budget ctx).SameBut "many1" "many"
        (((p.bind fun x => p.many.fmap (prepended x)) s).run budget ctx) ∧
      ((p.skipMany s).run budget ctx).SameBut "skip_many" "many"
        (((p.many.fmap fun _ => return .null) s).run budget ctx) ∧
      ((p.skipMany1 s).run budget ctx).SameBut "skip_many1" "many1"
        (((p.many1.fmap fun _ => return .null) s).run budget ctx) ∧
      ((p.sepBy1 sep s).run budget ctx).SameBut "sep_by1" "many"
        (((p.bind fun x => (sequence sep p []).many.fmap (prepended x)) s).run budget ctx) ∧
      p.sepBy sep = opt (.list []) (p.sepBy1 sep) := by
  refine ⟨⟨rfl, many1_eq p, skipMany_eq p, skipMany1_eq p, sepBy1_eq p sep⟩, ?_, ?_, ?_, ?_, rfl⟩
  · rw [many1_eq]
    exact mandatory_sameBut "many1" "many" p p s budget ctx
  · rw [skipMany_eq]
    exact sameBut_fmap _ (manyAs_sameBut "skip_many" "many" p s budget ctx)
  · rw [skipMany1_eq, many1_eq]
    exact sameBut_fmap _ (mandatory_sameBut "skip_many1" "many1" p p s budget ctx)
  · rw [sepBy1_eq]
    exact mandatory_sameBut "sep_by1" "many" p (sequence sep p []) s budget ctx

end Parser

end PullParse
