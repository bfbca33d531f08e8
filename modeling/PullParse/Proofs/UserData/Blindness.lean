import PullParse.Proofs.UserData.Tracks

/-!
# Grammars that do not look at the user data

User data goes along with a run and is not part of it, unless the grammar looks.
A grammar that never does, though it may put values there, follows a track: all
that it does is settled before any user data is there, and so are the values that
it puts on the path to its match. What a run carries in the end is the last of
them, or what it has carried from the start.
-/

namespace PullParse

namespace Grammar

/-- Outside the parses that run inside it, the grammar does not look at the user data, and calls no
rules but some. -/
def Blind (calls : String → List Value → Prop) : Grammar → Prop
  | .getUserData | .popUserData | .stateText => False
  | .noting _ g | .lookahead g | .notFollowedBy g | .many g | .many1 g | .skipMany g
  | .skipMany1 g | .count _ g | .traced _ g => g.Blind calls
  | .bind g f => g.Blind calls ∧ ∀ value, (f value).Blind calls
  | .andThen g h | .either g h | .manyUntil g h | .sepBy1 g h => g.Blind calls ∧ h.Blind calls
  | .call name args => calls name args
  | .satisfy _ | .pure _ | .raise _ | .fail _ | .putUserData _ | .activeSettings
  | .changeSettings _ | .nested _ _ _ _ => True

/-- The track of a grammar, given the parsers and the tracks of the rules. A parse inside starts
with user data of its own. -/
def toTrack (rule : String → List Value → Parser) (track : String → List Value → Track) :
    Grammar → Track
  | .putUserData value => .put value
  | .noting notes g => .noting notes (g.toTrack rule track)
  | .bind g f => (g.toTrack rule track).bind fun value => (f value).toTrack rule track
  | .andThen g h => (g.toTrack rule track).bind fun _ => h.toTrack rule track
  | .lookahead g => (g.toTrack rule track).lookahead
  | .notFollowedBy g => (g.toTrack rule track).notFollowedBy
  | .either g h => (g.toTrack rule track).either (h.toTrack rule track)
  | .many g => (g.toTrack rule track).repeating "many" [] .list
  | .many1 g =>
    (g.toTrack rule track).bind fun value =>
      (g.toTrack rule track).repeating "many1" [] fun values => .list (value :: values)
  | .skipMany g => (g.toTrack rule track).repeating "skip_many" [] fun _ => .null
  | .skipMany1 g =>
    (g.toTrack rule track).bind fun _ =>
      (g.toTrack rule track).repeating "skip_many1" [] fun _ => .null
  | .manyUntil g terminator =>
    (g.toTrack rule track).manyUntil (terminator.toTrack rule track)
  | .sepBy1 g sep =>
    (g.toTrack rule track).bind fun value =>
      ((sep.toTrack rule track).bind fun _ => g.toTrack rule track).repeating "sep_by1" [value]
        .list
  | .count n g => .count n (g.toTrack rule track)
  | .traced id g => .traced id (g.toTrack rule track)
  | .call name args => track name args
  | g => .ofParser (g.toParser rule)

end Grammar

/-- The track of a rule, with at most `depth` rules inside each other. -/
def Rules.track (rules : Rules) : Nat → String → List Value → Track
  | 0, _, _ => fun _ => Run.unfinished
  | depth + 1, name, args =>
    (rules name args).toTrack (rules.parser depth) (Rules.track rules depth)

/-- The track of a grammar over its rules. -/
def Grammar.track (rules : Rules) (g : Grammar) : Track := fun k =>
  Run.withBudget fun budget => g.toTrack (rules.parser budget) (rules.track budget) k

/-! ## Blind grammars follow their tracks -/

theorem Parser.Follows.changeSettings (changes : List (String × Value)) :
    Parser.Follows (.changeSettings changes) (.ofParser (.changeSettings changes)) := by
  intro k data
  simp only [Track.ofParser, Parser.changeSettings, bind_assoc, map_bind]
  rfl

theorem Grammar.follows_track {calls : String → List Value → Prop}
    {rule : String → List Value → Parser} {track : String → List Value → Track}
    (hrule : ∀ name args, calls name args → (rule name args).Follows (track name args))
    {g : Grammar} (hg : g.Blind calls) : (g.toParser rule).Follows (g.toTrack rule track) := by
  induction g with
  | satisfy test => exact .ofParser_satisfy test
  | pure value => exact fun _ _ => rfl
  | noting notes g ih => exact (ih hg).noting notes
  | raise fault => exact .ofParser_raising fun _ => fault
  | fail reason => exact .ofParser_raising fun k => .parse reason (.int k)
  | bind g f ihg ihf => exact (ihg hg.1).bind fun value => ihf value (hg.2 value)
  | andThen g h ihg ihh => exact (ihg hg.1).bind fun _ => ihh hg.2
  | getUserData => exact hg.elim
  | putUserData value => exact .put value
  | popUserData => exact hg.elim
  | lookahead g ih => exact (ih hg).lookahead
  | notFollowedBy g ih => exact (ih hg).notFollowedBy
  | either g h ihg ihh => exact (ihg hg.1).either (ihh hg.2)
  | many g ih => exact (ih hg).many
  | many1 g ih => exact (ih hg).many1
  | skipMany g ih => exact (ih hg).skipMany
  | skipMany1 g ih => exact (ih hg).skipMany1
  | manyUntil g terminator ihg iht => exact (ihg hg.1).manyUntil (iht hg.2)
  | sepBy1 g sep ihg ihs => exact (ihg hg.1).sepBy1 (ihs hg.2)
  | count n g ih => exact (ih hg).count n
  | traced id g ih => exact (ih hg).traced id
  | activeSettings =>
      exact .ofParser_inPlace (fun _ => Run.settings) fun _ active => active.toValue
  | changeSettings changes => exact .changeSettings changes
  | stateText => exact hg.elim
  | nested g producer options overrides =>
      exact .ofParser_inPlace
        (fun _ => (Parser.parse (g.toParser rule) options overrides).within
          (fun ctx => Context.opened producer ctx.session)
          (fun ctx inner => { ctx with session := inner.session }))
        fun _ answer => .list [answer.1, .bool answer.2]
  | call name args => exact hrule name args hg

theorem Rules.follows_track {calls : String → List Value → Prop} {rules : Rules}
    (hrules : ∀ name args, calls name args → (rules name args).Blind calls) (depth : Nat)
    (name : String) (args : List Value) (h : calls name args) :
    (rules.parser depth name args).Follows (rules.track depth name args) := by
  induction depth generalizing name args with
  | zero => exact fun _ _ => rfl
  | succ depth ih => exact Grammar.follows_track ih (hrules name args h)

theorem Grammar.parser_follows {calls : String → List Value → Prop} {rules : Rules}
    (hrules : ∀ name args, calls name args → (rules name args).Blind calls) {g : Grammar}
    (hg : g.Blind calls) : (g.parser rules).Follows (g.track rules) := fun k data =>
  Run.withBudget_map fun budget =>
    Grammar.follows_track (rules.follows_track hrules budget) hg k data

/-! ## Two runs beside each other -/

/-- How two runs end that have started with `data` and with `data'` and are otherwise the same,
given the end of the track that both have followed. -/
inductive Ending.Parallel (data data' : Value) :
    Ending Context Finding → Ending Context Outcome → Ending Context Outcome → Prop
  /-- Nothing has been put on the path, and each run still carries what it started with. -/
  | kept {value k ctx} :
      Parallel data data' (.done (.matched value ⟨k, []⟩) ctx)
        (.done (.matched value ⟨k, data⟩) ctx) (.done (.matched value ⟨k, data'⟩) ctx)
  /-- Both runs carry the value put last on the path. -/
  | replaced {value k puts last ctx} :
      Parallel data data' (.done (.matched value ⟨k, puts ++ [last]⟩) ctx)
        (.done (.matched value ⟨k, last⟩) ctx) (.done (.matched value ⟨k, last⟩) ctx)
  | noMatch {ctx} :
      Parallel data data' (.done .noMatch ctx) (.done .noMatch ctx) (.done .noMatch ctx)
  | raised {fault ctx} :
      Parallel data data' (.raised fault ctx) (.raised fault ctx) (.raised fault ctx)
  | unfinished : Parallel data data' .unfinished .unfinished .unfinished

/-- The ending of a track with the user data filled in. -/
theorem Parser.Follows.run_eq {p : Parser} {t : Track} (h : p.Follows t) (k : Int) (data : Value)
    (budget : Nat) (ctx : Context) :
    (p ⟨k, data⟩).run budget ctx =
      ((t k).run budget ctx).andThen fun finding ctx' => .done (finding.outcome data) ctx' :=
  congrArg (fun x : Run Context Outcome => x.run budget ctx) (h k data)

theorem Parser.Follows.parallel {p : Parser} {t : Track} (h : p.Follows t) (k : Int)
    (data data' : Value) (budget : Nat) (ctx : Context) :
    Ending.Parallel data data' ((t k).run budget ctx) ((p ⟨k, data⟩).run budget ctx)
      ((p ⟨k, data'⟩).run budget ctx) := by
  rw [h.run_eq k data, h.run_eq k data']
  cases (t k).run budget ctx with
  | done finding ctx' =>
      cases finding with
      | noMatch => exact .noMatch
      | matched value path =>
          obtain ⟨k', puts⟩ := path
          obtain rfl | ⟨before, last, rfl⟩ := puts.eq_nil_or_concat'
          · exact .kept
          · simp only [Ending.andThen, Finding.outcome, Path.state, List.getLastD_concat]
            exact .replaced
  | raised fault ctx' => exact .raised
  | unfinished => exact .unfinished

end PullParse
