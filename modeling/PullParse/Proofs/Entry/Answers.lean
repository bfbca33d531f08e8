import PullParse.Grammar.Meaning
import PullParse.Proofs.Cache.Streams
import PullParse.Proofs.Entry.Conclusion

/-!
# What a parse answers

The answer of a parse is a function of how the run of its grammar ends and of the
settings it was called with. A match is a success, whatever its value is. A
mismatch and the two hard faults are raised or answered by the placeholder, as
those settings say, and not the settings that the run has left active. Every
other fault passes, and so does the mismatch of a parse inside: to the parse
around it, it is a fault like others.
-/

namespace PullParse

/-- The first call of a fresh cache is for its first token. -/
theorem Cache.tokenAt_fresh {producer : Producer} {token : Token}
    (h : producer.next.1.bind Token.ofPair = .ok token) :
    ((Cache.fresh producer).tokenAt 0).1 = .ok token := by
  show (Cache.pull ⟨#[], 0, producer⟩).1 = _
  simp only [Cache.pull]
  rw [h]

/-- The hard faults are the parse fault and the stalled repetition. -/
theorem Fault.isHard_iff (fault : Fault) :
    fault.isHard = true ↔
      (∃ reason position, fault = .parse reason position) ∨
        ∃ combinator position, fault = .stalled combinator position := by
  cases fault with
  | parse reason position => simp [isHard]
  | stalled combinator position => simp [isHard]
  | _ => simp [isHard]

namespace Parser

variable (caller : Settings) {settings : Settings} {e : Ending Context Outcome}

/-- A failure is no success. -/
theorem failed_ne_success (fault : Fault) (v : Value) : failed settings fault ≠ .ok (v, true) := by
  unfold failed
  split
  · nofun
  · nofun

theorem some_failed (fault : Fault) :
    some (failed settings fault) =
      if settings.propagate.truth then some (.error fault)
      else some (.ok (settings.errorValue, false)) := by
  rw [failed]
  split
  · rfl
  · rfl

theorem result?_concluded_noMatch {ctx : Context} :
    (concluded caller settings (.done .noMatch ctx)).result? =
      some (failed settings (.noMatch (.int (ctx.cache.length - 1)))) :=
  Ending.result?_ofExcept _ _

theorem result?_concluded_hard {fault : Fault} (h : fault.isHard = true) {ctx : Context} :
    (concluded caller settings (.raised fault ctx)).result? = some (failed settings fault) := by
  rw [concluded, if_pos h]
  exact Ending.result?_ofExcept _ _

theorem result?_concluded_foreign {fault : Fault} (h : fault.isHard = false) {ctx : Context} :
    (concluded caller settings (.raised fault ctx)).result? = some (.error fault) := by
  rw [concluded, if_neg (by rw [h]; exact Bool.false_ne_true)]
  rfl

/-- A success is reported for a match and for nothing else. -/
theorem result?_concluded_success_iff (v : Value) :
    (concluded caller settings e).result? = some (.ok (v, true)) ↔
      ∃ s ctx, e = .done (.matched v s) ctx := by
  constructor
  · intro h
    cases e with
    | done outcome ctx =>
        cases outcome with
        | matched value s =>
            cases h
            exact ⟨s, ctx, rfl⟩
        | noMatch =>
            rw [result?_concluded_noMatch] at h
            exact absurd (Option.some.inj h) (failed_ne_success _ v)
    | raised fault ctx =>
        by_cases hhard : fault.isHard = true
        · rw [result?_concluded_hard caller hhard] at h
          exact absurd (Option.some.inj h) (failed_ne_success _ v)
        · rw [result?_concluded_foreign caller (Bool.eq_false_iff.mpr hhard)] at h
          cases h
    | unfinished => cases h
  · rintro ⟨s, ctx, rfl⟩
    rfl

theorem result?_concluded_eq_none_iff :
    (concluded caller settings e).result? = none ↔ e = .unfinished := by
  constructor
  · intro h
    cases e with
    | done outcome ctx =>
        cases outcome with
        | matched value s => cases h
        | noMatch => cases result?_concluded_noMatch caller ▸ h
    | raised fault ctx =>
        by_cases hhard : fault.isHard = true
        · cases result?_concluded_hard caller hhard ▸ h
        · cases result?_concluded_foreign caller (Bool.eq_false_iff.mpr hhard) ▸ h
    | unfinished => rfl
  · rintro rfl
    rfl

end Parser

namespace Grammar

variable (rules : Rules) (g : Grammar) (producer : Producer) (session : Session) (budget : Nat)

/-- The run of a grammar from the initial state of a parse. -/
def initialRun (settings : Settings) : Ending Context Outcome :=
  (g.parser rules ⟨0, settings.userData⟩).run budget (.started producer session settings)

/-- The answer of a parse, if it comes to an end. -/
def answer? (options : Options) (overrides : List (String × Value)) :
    Option (Except Fault (Value × Bool)) :=
  (((g.parser rules).parse options overrides).run budget (.opened producer session)).result?

/-- The answer is what the parse makes of the run from its initial state. -/
theorem answer?_eq_concluded {token : Token} {settings : Settings} {options : Options}
    {overrides : List (String × Value)}
    (hfirst : producer.next.1.bind Token.ofPair = .ok token)
    (hsettings : options.resolve session.settings overrides = .ok settings) :
    g.answer? rules producer session budget options overrides =
      (Parser.concluded session.settings settings
        (g.initialRun rules producer session budget settings)).result? := by
  rw [answer?, Parser.parse_run hsettings (Cache.tokenAt_fresh hfirst)]
  rfl

/-- What a parse under some settings answers if all it does is another parse, given the answer of
that one. -/
def relayed (settings : Settings) : Except Fault (Value × Bool) → Except Fault (Value × Bool)
  | .ok (v, success) => .ok (.list [v, .bool success], true)
  | .error fault => if fault.isHard then Parser.failed settings fault else .error fault

/-- A parse inside ends the run around it with its fault, or matches with its answer. -/
theorem result?_concluded_nested (inner : Grammar) (inside : Producer) (options : Options)
    (overrides : List (String × Value)) (caller settings : Settings) (s : State) (ctx : Context) :
    (Parser.concluded caller settings
        (((nested inner inside options overrides).parser rules s).run budget ctx)).result? =
      (inner.answer? rules inside ctx.session budget options overrides).map
        (relayed settings) := by
  have hrun : ((nested inner inside options overrides).parser rules s).run budget ctx =
      ((((inner.parser rules).parse options overrides).run budget
        (.opened inside ctx.session)).mapFinal fun ctx' =>
          { ctx with session := ctx'.session }).andThen
        fun answer ctx' => .done (.matched (.list [answer.1, .bool answer.2]) s) ctx' := rfl
  rw [hrun, answer?]
  cases ((inner.parser rules).parse options overrides).run budget (.opened inside ctx.session) with
  | done answer ctx' => rfl
  | raised fault ctx' =>
      show (Parser.concluded caller settings (.raised fault _)).result? =
        some (relayed settings (.error fault))
      rw [relayed]
      by_cases hhard : fault.isHard = true
      · rw [Parser.result?_concluded_hard caller hhard, if_pos hhard]
      · rw [Parser.result?_concluded_foreign caller (Bool.eq_false_iff.mpr hhard), if_neg hhard]
  | unfinished => rfl

end Grammar

/-- **A parse translates every run faithfully.** Take a parse whose settings resolve and whose
producer answers the first call with a token, and the run of its grammar from the initial state.
A match is answered with its value and success. A mismatch, a parse fault and a stalled repetition
are raised if the settings of the call say so, and answered by their placeholder if not. Every other
fault is raised, whatever the settings say. So the parse reports a success exactly for a match, and
has no answer exactly for a run that does not end. Where one parse runs inside another, each of them
answers by its own settings: a hard fault of the inner one is the fault of the outer one, too, and
its mismatch, once raised, is a fault that passes. -/
theorem parse_translates (rules : Rules) (g : Grammar) (producer : Producer) (token : Token)
    (hfirst : producer.next.1.bind Token.ofPair = .ok token) (session : Session)
    (settings : Settings) (options : Options) (overrides : List (String × Value))
    (hsettings : options.resolve session.settings overrides = .ok settings) (budget : Nat) :
    (∀ v s ctx, g.initialRun rules producer session budget settings = .done (.matched v s) ctx →
        g.answer? rules producer session budget options overrides = some (.ok (v, true))) ∧
      (∀ ctx, g.initialRun rules producer session budget settings = .done .noMatch ctx →
        g.answer? rules producer session budget options overrides =
          if settings.propagate.truth then some (.error (.noMatch (.int (ctx.cache.length - 1))))
          else some (.ok (settings.errorValue, false))) ∧
      (∀ fault ctx, g.initialRun rules producer session budget settings = .raised fault ctx →
        ((∃ reason position, fault = .parse reason position) ∨
          ∃ combinator position, fault = .stalled combinator position) →
        g.answer? rules producer session budget options overrides =
          if settings.propagate.truth then some (.error fault)
          else some (.ok (settings.errorValue, false))) ∧
      (∀ fault ctx, g.initialRun rules producer session budget settings = .raised fault ctx →
        (∀ reason position, fault ≠ .parse reason position) →
        (∀ combinator position, fault ≠ .stalled combinator position) →
        g.answer? rules producer session budget options overrides = some (.error fault)) ∧
      (∀ v, g.answer? rules producer session budget options overrides = some (.ok (v, true)) ↔
        ∃ s ctx, g.initialRun rules producer session budget settings = .done (.matched v s) ctx) ∧
      (g.answer? rules producer session budget options overrides = none ↔
        g.initialRun rules producer session budget settings = .unfinished) ∧
      ∀ inner inside options' overrides', g = .nested inner inside options' overrides' →
        g.answer? rules producer session budget options overrides =
          (inner.answer? rules inside (Context.started producer session settings).session budget
            options' overrides').map (Grammar.relayed settings) := by
  rw [Grammar.answer?_eq_concluded rules g producer session budget hfirst hsettings]
  have hnested : ∀ inner inside options' overrides', g = .nested inner inside options' overrides' →
      (Parser.concluded session.settings settings
        (g.initialRun rules producer session budget settings)).result? =
          (inner.answer? rules inside (Context.started producer session settings).session budget
            options' overrides').map (Grammar.relayed settings) := by
    rintro inner inside options' overrides' rfl
    exact Grammar.result?_concluded_nested rules budget inner inside options' overrides' _ settings
      _ _
  generalize g.initialRun rules producer session budget settings = e at hnested ⊢
  refine ⟨?_, ?_, ?_, ?_, ?_, ?_, hnested⟩
  · rintro v s ctx rfl
    rfl
  · rintro ctx rfl
    rw [Parser.result?_concluded_noMatch, Parser.some_failed]
  · rintro fault ctx rfl hhard
    rw [Parser.result?_concluded_hard _ (fault.isHard_iff.mpr hhard), Parser.some_failed]
  · rintro fault ctx rfl hparse hstalled
    apply Parser.result?_concluded_foreign
    rw [Bool.eq_false_iff, ne_eq, fault.isHard_iff]
    rintro (⟨reason, position, heq⟩ | ⟨combinator, position, heq⟩)
    · exact hparse reason position heq
    · exact hstalled combinator position heq
  · exact Parser.result?_concluded_success_iff _
  · exact Parser.result?_concluded_eq_none_iff _

/-- Failures are answered by the number seven. -/
def quietSettings : Settings := ⟨.null, .bool false, .int 7, .bool true⟩

/-- Asks for failures to be raised, and then fails. -/
def lateChange : Grammar :=
  .andThen (.changeSettings [("error_propagation", .bool true), ("error_value", .int 9)])
    (.fail (.str "refused"))

/-- A parse inside that does not match, and raises that. -/
def strictInside : Grammar :=
  .nested (.is (.str "b")) (.ofTokens [⟨.str "a", .null⟩]) (.settings .standard) []

/-- Under quiet settings a failure is answered by the placeholder of the call, although the grammar
has changed both settings by then; the mismatch of a parse inside is raised all the same. -/
theorem parse_translates_quiet :
    (Producer.ofTokens [⟨.str "a", .null⟩]).next.1.bind Token.ofPair =
        .ok ⟨.str "a", .null⟩ ∧
      (Options.settings quietSettings).resolve Session.fresh.settings [] = .ok quietSettings ∧
      lateChange.answer? (fun _ _ => .eof) (.ofTokens [⟨.str "a", .null⟩]) .fresh 4
        (.settings quietSettings) [] = some (.ok (.int 7, false)) ∧
      strictInside.answer? (fun _ _ => .eof) (.ofTokens [⟨.str "a", .null⟩]) .fresh 4
        (.settings quietSettings) [] = some (.error (.noMatch (.int 0))) := by
  have hfirst : (Producer.ofTokens [⟨.str "a", .null⟩]).next.1.bind Token.ofPair =
      .ok ⟨.str "a", .null⟩ := rfl
  have hsettings : (Options.settings quietSettings).resolve Session.fresh.settings [] =
      .ok quietSettings := rfl
  have htranslates := fun g : Grammar => parse_translates (fun _ _ => .eof) g
    (.ofTokens [⟨.str "a", .null⟩]) ⟨.str "a", .null⟩ hfirst .fresh quietSettings
    (.settings quietSettings) [] hsettings 4
  refine ⟨hfirst, hsettings, ?_, ?_⟩
  · have hresult : (lateChange.initialRun (fun _ _ => .eof) (.ofTokens [⟨.str "a", .null⟩]) .fresh 4
        quietSettings).result? = some (.error (.parse (.str "refused") (.int 0))) := rfl
    obtain ⟨ctx, hrun⟩ := Ending.exists_raised_of_result? hresult
    exact (htranslates lateChange).2.2.1 _ ctx hrun (.inl ⟨_, _, rfl⟩)
  · rw [(htranslates strictInside).2.2.2.2.2.2 _ _ _ _ rfl]
    cbv

end PullParse
