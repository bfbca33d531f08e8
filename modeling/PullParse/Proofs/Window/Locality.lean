import PullParse.Proofs.Laziness.Pulls
import PullParse.Proofs.Window.Combinators

/-!
# Grammars see their windows

A grammar sees the window of tokens that it looks at, and nothing else. On any
other stream that shows the same tokens somewhere, whatever stands before and
behind them, and whatever is cached already, it does the same from there: it
looks at the same tokens and ends in the same way, with every position moved.
-/

namespace PullParse

/-! ## Readings -/

/-- The part does not tell its position, and the faults of its callbacks come from elsewhere or
carry none. -/
def Grammar.Unplaced (foreign : Fault → Prop) : Grammar → Prop
  | .satisfy test =>
    ∀ cls fault, (test cls).result = .error fault → foreign fault ∨ fault.Unplaced
  | .raise fault => foreign fault ∨ fault.Unplaced
  | .stateText => False
  | _ => True

/-- The faults of stacks carry no positions. -/
theorem Stack.unplaced_pop {data : Value} {fault : Fault}
    (h : (Stack.ofValue data).bind Stack.pop = .error fault) : fault.Unplaced := by
  intro d
  cases hstack : Stack.ofValue data with
  | error fault' =>
      rw [hstack] at h
      cases h
      unfold Stack.ofValue at hstack
      split at hstack
      · cases hstack
      · cases hstack
        rfl
  | ok stack =>
      rw [hstack] at h
      simp only [Except.bind, Stack.pop] at h
      split at h
      · cases h
        rfl
      · cases h

variable {D : Displacement} {settings : Settings} {budget : Nat}

theorem Reader.Follows.popUserData (rule rule' : String → List Value → Reader) :
    Reader.Follows D (Grammar.popUserData.read D.stream settings budget rule)
      (Grammar.popUserData.read D.other settings budget rule') := by
  intro s
  apply Reading.Follows.bind (.ofExcept (fun _ => rfl) (fun _ => rfl) fun fault h =>
    .inr (Stack.unplaced_pop h))
  rintro ⟨front, rest⟩ _
  exact ⟨s.position, .inl rfl, .matched front { s with userData := rest }⟩

/-- A grammar sees its window, if its rules do. -/
theorem Grammar.read_follows {rule rule' : String → List Value → Reader}
    (hrule : ∀ name args, Reader.Follows D (rule name args) (rule' name args)) {g : Grammar}
    (hg : g.All (Unplaced D.foreign)) :
    Reader.Follows D (g.read D.stream settings budget rule)
      (g.read D.other settings budget rule') := by
  induction g with
  | satisfy test => exact .satisfy hg settings budget rule rule'
  | pure value => exact fun s => .matched value s
  | noting notes g ih => exact ih hg.2
  | raise fault => exact fun s => .raise_unmoved hg
  | fail reason => exact fun s => .raise (.parse reason (.int s.position))
  | bind g f ihg ihf =>
      rw [read, read]
      exact .chain (ihg hg.2.1) fun value => ihf value (hg.2.2 value)
  | andThen g h ihg ihh => exact .chain (ihg hg.2.1) fun _ => ihh hg.2.2
  | getUserData => exact fun s => .matched s.userData s
  | putUserData value => exact fun s => .matched value { s with userData := value }
  | popUserData => exact .popUserData rule rule'
  | lookahead g ih => exact .lookahead (ih hg.2)
  | notFollowedBy g ih => exact .notFollowedBy (ih hg.2)
  | either g h ihg ihh => exact .either (ihg hg.2.1) (ihh hg.2.2)
  | many g ih => exact .repeating "many" _ .list (ih hg.2) budget
  | many1 g ih =>
      exact .mandatory (ih hg.2) fun value =>
        .repeating "many1" _ (fun values => .list (value :: values)) (ih hg.2) budget
  | skipMany g ih => exact .repeating "skip_many" _ (fun _ => .null) (ih hg.2) budget
  | skipMany1 g ih =>
      exact .mandatory (ih hg.2) fun _ =>
        .repeating "skip_many1" _ (fun _ => .null) (ih hg.2) budget
  | manyUntil g terminator ihg iht =>
      exact .manyUntil _ (ihg hg.2.1) (iht hg.2.2) budget
  | sepBy1 g sep ihg ihs =>
      exact .mandatory (ihg hg.2.1) fun value =>
        .repeating "sep_by1" _ (fun values => .list (value :: values))
          (.chain (ihs hg.2.2) fun _ => ihg hg.2.1) budget
  | count n g ih => exact .count (ih hg.2) n.toNat
  | traced id g ih => exact ih hg.2
  | activeSettings => exact fun s => .matched settings.toValue s
  | changeSettings changes => exact fun s => .unfinished
  | stateText => exact hg.elim
  | nested g producer options overrides => exact fun s => .unfinished
  | call name args => exact hrule name args

/-- Rules see their windows, however deep they are inside each other. -/
theorem Rules.reader_follows {rules : Rules}
    (hrules : ∀ name args, (rules name args).All (Grammar.Unplaced D.foreign)) (depth : Nat)
    (name : String) (args : List Value) :
    Reader.Follows D (rules.reader D.stream settings budget depth name args)
      (rules.reader D.other settings budget depth name args) := by
  induction depth generalizing name args with
  | zero => exact fun s => .unfinished
  | succ depth ih => exact Grammar.read_follows ih (hrules name args)

/-! ## Runs -/

/-- A reading has one window. -/
theorem Reading.Within.unique {α : Type} [Placed α] {x : Reading α} {start : Int} {n n' : Nat}
    (h : x.Within start n) (h' : x.Within start n') : n = n' := by
  have hiff : ∀ k, (start ≤ k ∧ k < start + n) ↔ (start ≤ k ∧ k < start + n') :=
    fun k => (h.examined_iff k).symm.trans (h'.examined_iff k)
  have hlast := hiff (start + n)
  have hlast' := hiff (start + n')
  omega

/-- With marks at its tests of tokens the run ends, and has looked at these positions, in order. -/
def Grammar.Looks (g : Grammar) (mark : Value) (rules : Rules) (budget : Nat) (ctx : Context)
    (s : State) (ks : List Int) : Prop :=
  ∃ ctx', ((g.marked mark rules s).run budget ctx).final? = some ctx' ∧
    ctx'.session.entered = ctx.session.entered ++ ks

/-- A run that ends looks where its reading looks. -/
theorem Grammar.looks_reader {rules : Rules} (hrules : ∀ name args, (rules name args).Unmarked)
    {g : Grammar} (hg : g.Unmarked) (mark : Value) {src : Producer} {t : TokenStream}
    (hsrc : src.Delivers t) {ctx : Context} (hctx : ctx.cache.Holds src t) {s : State}
    (hs : s.InRange ctx.cache) {result : Except Fault Outcome}
    (h : (g.reader rules t ctx.session.settings budget s).result = some result) :
    g.Looks mark rules budget ctx s
      (g.reader rules t ctx.session.settings budget s).examined := by
  have hreads : Run.Reads .each src t budget ctx Outcome.Same (g.marked mark rules s) _ :=
    observed_reads (Parser.traced mark)
      (fun test reader => Parser.ReadsAs.traced_satisfy mark hsrc test reader) hrules hg hctx hs
  have hresult := hreads.result?_eq.trans h
  obtain ⟨ctx', hfinal⟩ : ∃ ctx', ((g.marked mark rules s).run budget ctx).final? = some ctx' := by
    cases result with
    | ok outcome =>
        obtain ⟨ctx', hrun⟩ := Ending.exists_done_of_result? hresult
        exact ⟨ctx', by rw [hrun]; rfl⟩
    | error fault =>
        obtain ⟨ctx', hrun⟩ := Ending.exists_raised_of_result? hresult
        exact ⟨ctx', by rw [hrun]; rfl⟩
  exact ⟨ctx', hfinal, (hreads.looked hfinal).marked⟩

/-- **A grammar sees its window, and nothing else.** If a run of a grammar ends, then the positions
that it has looked at are those of a window that starts at its state. Take any other stream that
shows the same tokens in a window as long as that one, any cache over it, and the state in range at
the start of that window, with the same user data and under the same settings. From there the
grammar ends, too, and in the same way, with every position moved: with the same value and user
data, or with the same fault. It looks at the same tokens of the window, in the same order. The
faults that callbacks raise themselves are the same, with the positions that callbacks put there. -/
theorem window_local (foreign : Fault → Prop) (rules : Rules)
    (hrules : ∀ name args,
      (rules name args).Unmarked ∧ (rules name args).All (Grammar.Unplaced foreign))
    (g : Grammar) (hg : g.Unmarked ∧ g.All (Grammar.Unplaced foreign)) (mark : Value) (budget : Nat)
    (src : Producer) (t : TokenStream) (hsrc : src.Delivers t) (ctx : Context)
    (hctx : ctx.cache.Reached src) (s : State) (hs : s.InRange ctx.cache)
    (result : Except Fault Outcome)
    (hends : ((g.parser rules s).run budget ctx).result? = some result) :
    ∃ ks n, g.Looks mark rules budget ctx s ks ∧
      (∀ k, k ∈ ks ↔ s.position ≤ k ∧ k < s.position + (n : Nat)) ∧
      ∀ (src' : Producer) (t' : TokenStream), src'.Delivers t' →
        ∀ (ctx' : Context) (s' : State), ctx'.cache.Reached src' → s'.InRange ctx'.cache →
          s'.userData = s.userData → ctx'.session.settings = ctx.session.settings →
          (∀ i < n, t' (s'.position.toNat + i) = t (s.position.toNat + i)) →
          Moved foreign (s'.position - s.position) (some result)
              ((g.parser rules s').run budget ctx').result? ∧
            g.Looks mark rules budget ctx' s' (ks.map (· + (s'.position - s.position))) := by
  have hunmarked := fun name args => (hrules name args).1
  have hfollows : ∀ D : Displacement, D.stream = t → D.foreign = foreign →
      Reading.Follows D s.position (g.reader rules t ctx.session.settings budget s)
        (g.reader rules D.other ctx.session.settings budget (s.moved D.distance)) := by
    rintro ⟨_, other, distance, _⟩ rfl rfl
    exact Grammar.read_follows (Rules.reader_follows (fun name args => (hrules name args).2) budget)
      hg.2 s
  have hresult := (Grammar.reads hsrc (fun name args => (hunmarked name args).plain) hg.1.plain
    (hctx.holds hsrc) hs).result?_eq.symm.trans hends
  obtain ⟨n, hwithin, -⟩ := hfollows ⟨t, t, 0, foreign⟩ rfl rfl
  refine ⟨_, n, Grammar.looks_reader hunmarked hg.1 mark hsrc (hctx.holds hsrc) hs hresult,
    hwithin.examined_iff, ?_⟩
  intro src' t' hsrc' ctx' s' hctx' hs' hdata hsettings hagrees
  obtain ⟨n', hwithin', hmoved⟩ :=
    hfollows ⟨t, t', s'.position - s.position, foreign⟩ rfl rfl
  obtain rfl := hwithin.unique hwithin'
  obtain ⟨hexamined, hmoved⟩ := hmoved (.of_starts hs.1 hs'.1 hagrees)
  rw [State.moved_sub hdata] at hmoved hexamined
  rw [hresult] at hmoved
  obtain ⟨result', hresult'⟩ := hmoved.exists_some
  have hlooks := Grammar.looks_reader hunmarked hg.1 mark hsrc' (hctx'.holds hsrc') hs'
    (by rw [hsettings]; exact hresult')
  have hrun' : ((g.parser rules s').run budget ctx').result? = _ :=
    (Grammar.reads hsrc' (fun name args => (hunmarked name args).plain) hg.1.plain
      (hctx'.holds hsrc') hs').result?_eq
  rw [hsettings, hexamined] at hlooks
  rw [hrun', hsettings]
  exact ⟨hmoved, hlooks⟩

/-- Two tokens, with two others in front of them and one behind. -/
def framedTokens : List Token :=
  [⟨.str "c", .null⟩, ⟨.str "c", .null⟩, ⟨.str "a", .int 1⟩, ⟨.str "b", .int 2⟩, ⟨.str "a", .int 3⟩]

/-- Takes all there is of a class, and fails behind it. -/
def takingAll : Grammar := .andThen (.many (.is (.str "a"))) (.fail (.str "that was all"))

/-- A run over two tokens fails at the second one. Where the same two tokens stand in the middle of
others, and some are cached already, it fails at the second one of them. -/
theorem window_local_framed :
    (∀ (name : String) (args : List Value), ((fun _ _ => .eof : Rules) name args).Unmarked ∧
        ((fun _ _ => .eof : Rules) name args).All (Grammar.Unplaced fun _ => False)) ∧
      (takingAll.Unmarked ∧ takingAll.All (Grammar.Unplaced fun _ => False)) ∧
      ((takingAll.parser (fun _ _ => .eof) ⟨0, .null⟩).run 4
        (.opened (.ofTokens [⟨.str "a", .int 1⟩, ⟨.str "b", .int 2⟩]) .fresh)).result? =
          some (.error (.parse (.str "that was all") (.int 1))) ∧
      ((takingAll.parser (fun _ _ => .eof) ⟨2, .null⟩).run 4
        ⟨(Cache.fresh (.ofTokens framedTokens)).reads [0, 1], .fresh⟩).result? =
          some (.error (.parse (.str "that was all") (.int 3))) := by
  have hrules : ∀ (name : String) (args : List Value),
      ((fun _ _ => .eof : Rules) name args).Unmarked ∧
        ((fun _ _ => .eof : Rules) name args).All (Grammar.Unplaced fun _ => False) :=
    fun _ _ => ⟨trivial, nofun⟩
  have hg : takingAll.Unmarked ∧ takingAll.All (Grammar.Unplaced fun _ => False) :=
    ⟨⟨trivial, ⟨trivial, trivial⟩, trivial⟩, trivial, ⟨trivial, nofun⟩, trivial⟩
  have hends : ((takingAll.parser (fun _ _ => .eof) ⟨0, .null⟩).run 4
      (.opened (.ofTokens [⟨.str "a", .int 1⟩, ⟨.str "b", .int 2⟩]) .fresh)).result? =
        some (.error (.parse (.str "that was all") (.int 1))) := by cbv
  have hs : State.InRange ⟨2, .null⟩ ((Cache.fresh (.ofTokens framedTokens)).reads [0, 1]) := by
    decide +kernel
  obtain ⟨ks, n, ⟨ctx', hfinal, hlooks⟩, hwindow, hlocal⟩ := window_local (fun _ => False)
    (fun _ _ => .eof) hrules takingAll hg .null 4
    (.ofTokens [⟨.str "a", .int 1⟩, ⟨.str "b", .int 2⟩])
    (.ofList [⟨.str "a", .int 1⟩, ⟨.str "b", .int 2⟩]) (Producer.delivers_ofTokens _)
    (.opened (.ofTokens [⟨.str "a", .int 1⟩, ⟨.str "b", .int 2⟩]) .fresh) ⟨[], rfl⟩ ⟨0, .null⟩
    (State.inRange_start _ _) _ hends
  have hentered : (((takingAll.marked .null (fun _ _ => .eof) ⟨0, .null⟩).run 4
      (.opened (.ofTokens [⟨.str "a", .int 1⟩, ⟨.str "b", .int 2⟩]) .fresh)).final?).map
        (fun ctx => ctx.session.entered) = some [0, 1] := by cbv
  have hks : ks = [0, 1] := by
    rw [hfinal] at hentered
    exact hlooks.symm.trans (Option.some.inj hentered)
  have hn : n ≤ 2 := by
    by_contra hlarge
    have hmem := (hwindow 2).mpr ⟨by decide, by show (2 : Int) < 0 + n; omega⟩
    rw [hks] at hmem
    simp at hmem
  have hagrees : ∀ i < n, TokenStream.ofList framedTokens (2 + i) =
      TokenStream.ofList [⟨.str "a", .int 1⟩, ⟨.str "b", .int 2⟩] (0 + i) := by
    intro i hi
    obtain rfl | rfl : i = 0 ∨ i = 1 := by omega
    · rfl
    · rfl
  obtain ⟨hmoved, -⟩ := hlocal (.ofTokens framedTokens) (.ofList framedTokens)
    (Producer.delivers_ofTokens _) ⟨(Cache.fresh (.ofTokens framedTokens)).reads [0, 1], .fresh⟩
    ⟨2, .null⟩ ⟨[0, 1], rfl⟩ hs rfl rfl hagrees
  refine ⟨hrules, hg, hends, ?_⟩
  generalize ((takingAll.parser (fun _ _ => .eof) ⟨2, .null⟩).run 4
    ⟨(Cache.fresh (.ofTokens framedTokens)).reads [0, 1], .fresh⟩).result? = result at hmoved
  cases hmoved with
  | fault => rfl
  | foreign h => exact h.elim

end PullParse
