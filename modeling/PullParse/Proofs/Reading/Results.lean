import PullParse.Proofs.Reading.Grammar

/-!
# Results of readings

How the combinators hand on the results of their parts. These equations are about
results alone, whatever positions have been looked at.
-/

namespace PullParse

namespace Action

variable {α β : Type} {x : Action α}

theorem result_bind_ok {a : α} (h : x.result = .ok a) (f : α → Action β) :
    (x >>= f).result = (f a).result := by
  show (Action.bind x f).result = _
  rw [Action.bind, h]

theorem result_bind_error {fault : Fault} (h : x.result = .error fault) (f : α → Action β) :
    (x >>= f).result = .error fault := by
  show (Action.bind x f).result = _
  rw [Action.bind, h]

end Action

namespace Reading

variable {α β : Type} {x : Reading α}

theorem result_bind_ok {a : α} (h : x.result = some (.ok a)) (f : α → Reading β) :
    (x >>= f).result = (f a).result := by
  rw [bind_of_ok h]

theorem result_bind_error {fault : Fault} (h : x.result = some (.error fault))
    (f : α → Reading β) : (x >>= f).result = some (.error fault) := by
  rw [bind_of_error h]

end Reading

namespace Reader

variable {name : String} {guard : Bool} {r : Reader} {left : Nat} {s s' : State} {v : Value}

/-- The rounds end where no further one matches. -/
theorem result_rounds_noMatch (h : (r s).result = some (.ok .noMatch)) :
    (rounds name guard r (left + 1) s).result = some (.ok ([], s)) := by
  rw [rounds, Reading.result_bind_ok h]
  rfl

theorem result_rounds_error {fault : Fault} (h : (r s).result = some (.error fault)) :
    (rounds name guard r (left + 1) s).result = some (.error fault) := by
  rw [rounds, Reading.result_bind_error h]

/-- A round that has moved on adds its value to those of the rounds behind it. -/
theorem result_rounds_matched (h : (r s).result = some (.ok (.matched v s')))
    (hmoved : s'.position ≠ s.position) {rest : List Value × State}
    (hrest : (rounds name guard r left s').result = some (.ok rest)) :
    (rounds name guard r (left + 1) s).result = some (.ok (v :: rest.1, rest.2)) := by
  have hstall : ¬Parser.stalls guard s s' = true := by simp [Parser.stalls, hmoved]
  rw [rounds, Reading.result_bind_ok h]
  simp only [hstall]
  exact Reading.result_bind_ok hrest _

theorem result_rounds_matched_error (h : (r s).result = some (.ok (.matched v s')))
    (hmoved : s'.position ≠ s.position) {fault : Fault}
    (hrest : (rounds name guard r left s').result = some (.error fault)) :
    (rounds name guard r (left + 1) s).result = some (.error fault) := by
  have hstall : ¬Parser.stalls guard s s' = true := by simp [Parser.stalls, hmoved]
  rw [rounds, Reading.result_bind_ok h]
  simp only [hstall]
  exact Reading.result_bind_error hrest _

end Reader

namespace Grammar

variable {t : TokenStream} {settings : Settings} {budget : Nat}
variable {rule : String → List Value → Reader} {g h : Grammar} {s s' : State} {v : Value}

/-- A token is matched if the test passes, and passed unless it is the end. -/
theorem result_satisfy {test : Value → Action Bool} {passes : Bool}
    (htest : (test (t s.position.toNat).cls).result = .ok passes) :
    ((satisfy test).read t settings budget rule s).result =
      some (.ok (if passes then
          .matched (t s.position.toNat).value
            (if (t s.position.toNat).isEof then s else { s with position := s.position + 1 })
        else .noMatch)) := by
  show (Reading.bind (Reading.ofExcept (test (t s.position.toNat).cls).result) _).result = _
  rw [htest]
  cases passes with
  | true => rfl
  | false => rfl

theorem result_bind_matched {f : Value → Grammar}
    (hg : (g.read t settings budget rule s).result = some (.ok (.matched v s'))) :
    ((bind g f).read t settings budget rule s).result =
      ((f v).read t settings budget rule s').result := by
  rw [read]
  exact Reading.result_bind_ok hg _

theorem result_bind_noMatch {f : Value → Grammar}
    (hg : (g.read t settings budget rule s).result = some (.ok .noMatch)) :
    ((bind g f).read t settings budget rule s).result = some (.ok .noMatch) := by
  rw [read]
  exact Reading.result_bind_ok hg _

theorem result_bind_error {f : Value → Grammar} {fault : Fault}
    (hg : (g.read t settings budget rule s).result = some (.error fault)) :
    ((bind g f).read t settings budget rule s).result = some (.error fault) := by
  rw [read]
  exact Reading.result_bind_error hg _

theorem result_andThen_matched
    (hg : (g.read t settings budget rule s).result = some (.ok (.matched v s'))) :
    ((andThen g h).read t settings budget rule s).result =
      (h.read t settings budget rule s').result :=
  Reading.result_bind_ok hg _

theorem result_andThen_noMatch
    (hg : (g.read t settings budget rule s).result = some (.ok .noMatch)) :
    ((andThen g h).read t settings budget rule s).result = some (.ok .noMatch) :=
  Reading.result_bind_ok hg _

theorem result_either_matched
    (hg : (g.read t settings budget rule s).result = some (.ok (.matched v s'))) :
    ((either g h).read t settings budget rule s).result = some (.ok (.matched v s')) :=
  Reading.result_bind_ok hg _

theorem result_either_noMatch
    (hg : (g.read t settings budget rule s).result = some (.ok .noMatch)) :
    ((either g h).read t settings budget rule s).result =
      (h.read t settings budget rule s).result :=
  Reading.result_bind_ok hg _

theorem result_many_ok {all : List Value × State}
    (hg : (Reader.rounds "many" settings.guard.truth (g.read t settings budget rule) budget
      s).result = some (.ok all)) :
    ((many g).read t settings budget rule s).result =
      some (.ok (.matched (.list all.1) all.2)) :=
  Reading.result_bind_ok hg _

theorem result_many_error {fault : Fault}
    (hg : (Reader.rounds "many" settings.guard.truth (g.read t settings budget rule) budget
      s).result = some (.error fault)) :
    ((many g).read t settings budget rule s).result = some (.error fault) :=
  Reading.result_bind_error hg _

/-- A function that gives a value replaces the value of the match. -/
theorem result_fmap_ok {f : Value → Action Value} {w : Value}
    (hg : (g.read t settings budget rule s).result = some (.ok (.matched v s')))
    (hf : (f v).result = .ok w) :
    ((fmap f g).read t settings budget rule s).result = some (.ok (.matched w s')) := by
  rw [fmap, result_bind_matched hg, ofAction, Action.result_bind_ok hf]
  rfl

theorem result_fmap_error {f : Value → Action Value} {fault : Fault}
    (hg : (g.read t settings budget rule s).result = some (.ok (.matched v s')))
    (hf : (f v).result = .error fault) :
    ((fmap f g).read t settings budget rule s).result = some (.error fault) := by
  rw [fmap, result_bind_matched hg, ofAction, Action.result_bind_error hf]
  rfl

/-- An action that gives a grammar lets it go on in place. -/
theorem result_ofAction_ok {x : Action Grammar} (hx : x.result = .ok g) :
    ((ofAction x).read t settings budget rule s).result =
      (g.read t settings budget rule s).result := by
  rw [ofAction, hx]
  rfl

theorem result_pushUserData {data : Value}
    (h : (Stack.ofValue s.userData).bind (Stack.push v) = .ok data) :
    ((pushUserData v).read t settings budget rule s).result =
      some (.ok (.matched v { s with userData := data })) := by
  have hput : ((modifyUserData fun data => .ofExcept ((Stack.ofValue data).bind
      (Stack.push v))).read t settings budget rule s).result =
        some (.ok (.matched data { s with userData := data })) := by
    have hget : (getUserData.read t settings budget rule s).result =
        some (.ok (.matched s.userData s)) := rfl
    rw [modifyUserData, result_bind_matched hget,
      result_ofAction_ok (Action.result_bind_ok (x := .ofExcept _) h _)]
    rfl
  rw [pushUserData, result_andThen_matched hput]
  rfl

theorem result_popUserData {data : Value}
    (h : (Stack.ofValue s.userData).bind Stack.pop = .ok (v, data)) :
    (popUserData.read t settings budget rule s).result =
      some (.ok (.matched v { s with userData := data })) := by
  rw [read]
  exact Reading.result_bind_ok (x := .ofExcept _) (congrArg some h) _

end Grammar

end PullParse
