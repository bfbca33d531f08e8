import PullParse.Grammar.Meaning
import PullParse.Proofs.Reading.Basic

/-!
# Readings of grammars

What a grammar means on a stream of tokens, by recursion over the grammar. The
settings are fixed: a grammar that changes them, or that runs a parse of another
producer, has no reading.
-/

namespace PullParse

/-- What the marks in the journal of a run say about its reads: nothing, that there are no marks, or
that each read has one. -/
inductive Marks where
  | any
  | none
  | each
  deriving DecidableEq

namespace Grammar

/-- Every part of a grammar, the grammar itself included, has a property. -/
def All (property : Grammar → Prop) : Grammar → Prop
  | .noting notes g => property (.noting notes g) ∧ g.All property
  | .bind g f => property (.bind g f) ∧ g.All property ∧ ∀ value, (f value).All property
  | .andThen g h => property (.andThen g h) ∧ g.All property ∧ h.All property
  | .lookahead g => property (.lookahead g) ∧ g.All property
  | .notFollowedBy g => property (.notFollowedBy g) ∧ g.All property
  | .either g h => property (.either g h) ∧ g.All property ∧ h.All property
  | .many g => property (.many g) ∧ g.All property
  | .many1 g => property (.many1 g) ∧ g.All property
  | .skipMany g => property (.skipMany g) ∧ g.All property
  | .skipMany1 g => property (.skipMany1 g) ∧ g.All property
  | .manyUntil g terminator =>
    property (.manyUntil g terminator) ∧ g.All property ∧ terminator.All property
  | .sepBy1 g sep => property (.sepBy1 g sep) ∧ g.All property ∧ sep.All property
  | .count n g => property (.count n g) ∧ g.All property
  | .traced id g => property (.traced id g) ∧ g.All property
  | .nested g producer options overrides =>
    property (.nested g producer options overrides) ∧ g.All property
  | g => property g

/-- What holds of every grammar holds of all parts of one. -/
theorem All.of_forall {property : Grammar → Prop} (h : ∀ g, property g) (g : Grammar) :
    g.All property := by
  induction g with
  | bind _ _ ihg ihf => exact ⟨h _, ihg, ihf⟩
  | andThen _ _ ih ih' => exact ⟨h _, ih, ih'⟩
  | either _ _ ih ih' => exact ⟨h _, ih, ih'⟩
  | manyUntil _ _ ih ih' => exact ⟨h _, ih, ih'⟩
  | sepBy1 _ _ ih ih' => exact ⟨h _, ih, ih'⟩
  | noting _ _ ih => exact ⟨h _, ih⟩
  | lookahead _ ih => exact ⟨h _, ih⟩
  | notFollowedBy _ ih => exact ⟨h _, ih⟩
  | many _ ih => exact ⟨h _, ih⟩
  | many1 _ ih => exact ⟨h _, ih⟩
  | skipMany _ ih => exact ⟨h _, ih⟩
  | skipMany1 _ ih => exact ⟨h _, ih⟩
  | count _ _ ih => exact ⟨h _, ih⟩
  | traced _ _ ih => exact ⟨h _, ih⟩
  | nested _ _ _ _ ih => exact ⟨h _, ih⟩
  | _ => exact h _

theorem All.mono {property property' : Grammar → Prop} (h : ∀ g, property g → property' g)
    {g : Grammar} (hg : g.All property) : g.All property' := by
  induction g with
  | bind g f ihg ihf => exact ⟨h _ hg.1, ihg hg.2.1, fun value => ihf value (hg.2.2 value)⟩
  | andThen _ _ ih ih' => exact ⟨h _ hg.1, ih hg.2.1, ih' hg.2.2⟩
  | either _ _ ih ih' => exact ⟨h _ hg.1, ih hg.2.1, ih' hg.2.2⟩
  | manyUntil _ _ ih ih' => exact ⟨h _ hg.1, ih hg.2.1, ih' hg.2.2⟩
  | sepBy1 _ _ ih ih' => exact ⟨h _ hg.1, ih hg.2.1, ih' hg.2.2⟩
  | noting _ _ ih => exact ⟨h _ hg.1, ih hg.2⟩
  | lookahead _ ih => exact ⟨h _ hg.1, ih hg.2⟩
  | notFollowedBy _ ih => exact ⟨h _ hg.1, ih hg.2⟩
  | many _ ih => exact ⟨h _ hg.1, ih hg.2⟩
  | many1 _ ih => exact ⟨h _ hg.1, ih hg.2⟩
  | skipMany _ ih => exact ⟨h _ hg.1, ih hg.2⟩
  | skipMany1 _ ih => exact ⟨h _ hg.1, ih hg.2⟩
  | count _ _ ih => exact ⟨h _ hg.1, ih hg.2⟩
  | traced _ _ ih => exact ⟨h _ hg.1, ih hg.2⟩
  | nested _ _ _ _ ih => exact ⟨h _ hg.1, ih hg.2⟩
  | _ => exact h _ hg

theorem All.and {property property' : Grammar → Prop} {g : Grammar} (hg : g.All property)
    (hg' : g.All property') : g.All fun h => property h ∧ property' h := by
  induction g with
  | bind g f ihg ihf =>
      exact ⟨⟨hg.1, hg'.1⟩, ihg hg.2.1 hg'.2.1,
        fun value => ihf value (hg.2.2 value) (hg'.2.2 value)⟩
  | andThen _ _ ih ih' => exact ⟨⟨hg.1, hg'.1⟩, ih hg.2.1 hg'.2.1, ih' hg.2.2 hg'.2.2⟩
  | either _ _ ih ih' => exact ⟨⟨hg.1, hg'.1⟩, ih hg.2.1 hg'.2.1, ih' hg.2.2 hg'.2.2⟩
  | manyUntil _ _ ih ih' => exact ⟨⟨hg.1, hg'.1⟩, ih hg.2.1 hg'.2.1, ih' hg.2.2 hg'.2.2⟩
  | sepBy1 _ _ ih ih' => exact ⟨⟨hg.1, hg'.1⟩, ih hg.2.1 hg'.2.1, ih' hg.2.2 hg'.2.2⟩
  | noting _ _ ih => exact ⟨⟨hg.1, hg'.1⟩, ih hg.2 hg'.2⟩
  | lookahead _ ih => exact ⟨⟨hg.1, hg'.1⟩, ih hg.2 hg'.2⟩
  | notFollowedBy _ ih => exact ⟨⟨hg.1, hg'.1⟩, ih hg.2 hg'.2⟩
  | many _ ih => exact ⟨⟨hg.1, hg'.1⟩, ih hg.2 hg'.2⟩
  | many1 _ ih => exact ⟨⟨hg.1, hg'.1⟩, ih hg.2 hg'.2⟩
  | skipMany _ ih => exact ⟨⟨hg.1, hg'.1⟩, ih hg.2 hg'.2⟩
  | skipMany1 _ ih => exact ⟨⟨hg.1, hg'.1⟩, ih hg.2 hg'.2⟩
  | count _ _ ih => exact ⟨⟨hg.1, hg'.1⟩, ih hg.2 hg'.2⟩
  | traced _ _ ih => exact ⟨⟨hg.1, hg'.1⟩, ih hg.2 hg'.2⟩
  | nested _ _ _ _ ih => exact ⟨⟨hg.1, hg'.1⟩, ih hg.2 hg'.2⟩
  | _ => exact ⟨hg, hg'⟩

/-- What holds anyhow, or of every part, holds of every part. -/
theorem All.or_left {condition : Prop} {property any : Grammar → Prop} {g : Grammar}
    (hg : g.All any) (h : condition ∨ g.All property) :
    g.All fun part => condition ∨ property part := by
  rcases h with hcondition | hall
  · exact hg.mono fun _ _ => .inl hcondition
  · exact hall.mono fun _ hpart => .inr hpart

/-- A part that leaves the settings alone and runs no parse of its own; marks that are accounted for
come from nowhere else. -/
def Admitted (marks : Marks) : Grammar → Prop
  | .changeSettings _ | .nested _ _ _ _ => False
  | .traced _ _ => marks = .any
  | _ => True

/-- Nothing in the grammar changes the settings or runs another parse. -/
def Plain (g : Grammar) : Prop := g.All (Admitted .any)

/-- A plain grammar that leaves no marks in the journal, either. -/
def Unmarked (g : Grammar) : Prop := g.All (Admitted .each)

theorem Unmarked.plain {g : Grammar} (h : g.Unmarked) : g.Plain := by
  refine All.mono ?_ h
  intro g hg
  cases g with
  | traced _ _ => rfl
  | changeSettings _ => exact hg
  | nested _ _ _ _ => exact hg
  | _ => exact trivial

/-- Reads a grammar off a stream under fixed settings, given the readers of the rules. -/
def read (t : TokenStream) (settings : Settings) (budget : Nat)
    (rule : String → List Value → Reader) : Grammar → Reader
  | .satisfy test => fun s => do
    let token ← Reading.look t s.position
    if ← Reading.ofExcept (test token.cls).result then
      return .matched token.value (if token.isEof then s else { s with position := s.position + 1 })
    else return .noMatch
  | .pure value => fun s => return .matched value s
  | .noting _ g => g.read t settings budget rule
  | .raise fault => fun _ => .raise fault
  | .fail reason => fun s => .raise (.parse reason (.int s.position))
  | .bind g f => fun s => do
    match ← g.read t settings budget rule s with
    | .matched value s' => (f value).read t settings budget rule s'
    | .noMatch => return .noMatch
  | .andThen g h => fun s => do
    match ← g.read t settings budget rule s with
    | .matched _ s' => h.read t settings budget rule s'
    | .noMatch => return .noMatch
  | .getUserData => fun s => return .matched s.userData s
  | .putUserData value => fun s => return .matched value { s with userData := value }
  | .popUserData => fun s => do
    let popped ← Reading.ofExcept ((Stack.ofValue s.userData).bind Stack.pop)
    return .matched popped.1 { s with userData := popped.2 }
  | .lookahead g => fun s => do
    match ← g.read t settings budget rule s with
    | .matched value _ => return .matched value s
    | .noMatch => return .noMatch
  | .notFollowedBy g => fun s => do
    match ← g.read t settings budget rule s with
    | .matched _ _ => return .noMatch
    | .noMatch => return .matched .null s
  | .either g h => fun s => do
    match ← g.read t settings budget rule s with
    | .matched value s' => return .matched value s'
    | .noMatch => h.read t settings budget rule s
  | .many g => fun s => do
    let all ← Reader.rounds "many" settings.guard.truth (g.read t settings budget rule) budget s
    return .matched (.list all.1) all.2
  | .many1 g => fun s => do
    match ← g.read t settings budget rule s with
    | .noMatch => return .noMatch
    | .matched value s' =>
      let rest ←
        Reader.rounds "many1" settings.guard.truth (g.read t settings budget rule) budget s'
      return .matched (.list (value :: rest.1)) rest.2
  | .skipMany g => fun s => do
    let all ←
      Reader.rounds "skip_many" settings.guard.truth (g.read t settings budget rule) budget s
    return .matched .null all.2
  | .skipMany1 g => fun s => do
    match ← g.read t settings budget rule s with
    | .noMatch => return .noMatch
    | .matched _ s' =>
      let rest ←
        Reader.rounds "skip_many1" settings.guard.truth (g.read t settings budget rule) budget s'
      return .matched .null rest.2
  | .manyUntil g terminator => fun s => do
    let all ← Reader.roundsUntil settings.guard.truth (g.read t settings budget rule)
      (terminator.read t settings budget rule) budget s
    return .ofValues all
  | .sepBy1 g sep => fun s => do
    match ← g.read t settings budget rule s with
    | .noMatch => return .noMatch
    | .matched value s' =>
      -- a further round is a separator and the element behind it
      let next : Reader := fun s => do
        match ← sep.read t settings budget rule s with
        | .matched _ between => g.read t settings budget rule between
        | .noMatch => return .noMatch
      let rest ← Reader.rounds "sep_by1" settings.guard.truth next budget s'
      return .matched (.list (value :: rest.1)) rest.2
  | .count n g => fun s => do
    let all ← Reader.times (g.read t settings budget rule) n.toNat s
    return .ofValues all
  | .traced _ g => g.read t settings budget rule
  | .activeSettings => fun s => return .matched settings.toValue s
  | .stateText => fun s => return .matched (.str s.display) s
  | .call name args => rule name args
  | .changeSettings _ | .nested _ _ _ _ => fun _ => .unfinished

end Grammar

/-- Reads a rule, with at most `depth` rules inside each other. -/
def Rules.reader (rules : Rules) (t : TokenStream) (settings : Settings) (budget : Nat) :
    Nat → String → List Value → Reader
  | 0, _, _ => fun _ => .unfinished
  | depth + 1, name, args =>
    (rules name args).read t settings budget (Rules.reader rules t settings budget depth)

/-- The reader of a grammar over its rules. -/
def Grammar.reader (rules : Rules) (g : Grammar) (t : TokenStream) (settings : Settings)
    (budget : Nat) : Reader :=
  g.read t settings budget (rules.reader t settings budget budget)

end PullParse
