import PullParse.Parser.UserData
import PullParse.Proofs.Chaining.Bracketing

/-!
# Words of stack operations

A stack machine keeps the values that have been pushed on top of the elements it
was started with. Words of pushes and pops on the user data do what the machine
does, whatever collection the user data is at the start: the first operation turns
it into a tuple or a list, and every later one finds its elements in that form.
-/

namespace PullParse

/-! ## The machine -/

inductive StackOp where
  | push (value : Value)
  | pop

/-- The values pushed and not yet popped, newest first, and what is left of the elements from the
start. -/
structure StackMachine where
  pushed : List Value
  original : List Value

namespace StackMachine

variable {m m' : StackMachine} {op : StackOp} {word : List StackOp} {fault : Fault} {value : Value}

/-- All elements of the stack, front first. -/
def contents (m : StackMachine) : List Value := m.pushed ++ m.original

/-- One operation with its result. -/
def step : StackMachine → StackOp → Except Fault (Value × StackMachine)
  | ⟨pushed, original⟩, .push value => .ok (value, ⟨value :: pushed, original⟩)
  | ⟨value :: pushed, original⟩, .pop => .ok (value, ⟨pushed, original⟩)
  | ⟨[], value :: original⟩, .pop => .ok (value, ⟨[], original⟩)
  | ⟨[], []⟩, .pop => .error .emptyStack

/-- A word of operations with their results, up to the first one that fails. -/
def run : StackMachine → List StackOp → Except Fault (List Value × StackMachine)
  | m, [] => .ok ([], m)
  | m, op :: word =>
    match m.step op with
    | .error fault => .error fault
    | .ok (value, m') => (m'.run word).map fun (values, m'') => (value :: values, m'')

theorem run_cons_ok (h : m.step op = .ok (value, m')) (word : List StackOp) :
    m.run (op :: word) = (m'.run word).map fun r => (value :: r.1, r.2) := by
  rw [run, h]

theorem run_cons_error (h : m.step op = .error fault) (word : List StackOp) :
    m.run (op :: word) = .error fault := by
  rw [run, h]

/-- What is made of a word is made of its first operation and of the word behind it. -/
theorem ofExcept_run_cons {α σ : Type} (m : StackMachine) (op : StackOp) (word : List StackOp)
    (f : List Value × StackMachine → α) (s : σ) :
    Ending.ofExcept ((m.run (op :: word)).map f) s =
      match m.step op with
      | .error fault => .raised fault s
      | .ok (value, m') => .ofExcept ((m'.run word).map fun r => f (value :: r.1, r.2)) s := by
  cases hstep : m.step op with
  | error fault =>
      rw [run_cons_error hstep]
      rfl
  | ok r =>
      obtain ⟨value, m'⟩ := r
      rw [run_cons_ok hstep]
      dsimp only
      cases m'.run word with
      | error fault => rfl
      | ok r => rfl

/-- Only a pop fails, on the empty stack. -/
theorem step_error_iff :
    m.step op = .error fault ↔ fault = .emptyStack ∧ op = .pop ∧ m = ⟨[], []⟩ := by
  constructor
  · intro h
    obtain ⟨pushed, original⟩ := m
    cases op with
    | push value => cases h
    | pop =>
        cases pushed with
        | cons value pushed => cases h
        | nil =>
            cases original with
            | cons value original => cases h
            | nil =>
                cases h
                exact ⟨rfl, rfl, rfl⟩
  · rintro ⟨rfl, rfl, rfl⟩
    rfl

/-- A word fails at the first pop that meets the empty stack, and in no other way. -/
theorem run_error_iff :
    m.run word = .error fault ↔ fault = .emptyStack ∧ ∃ before after values,
      word = before ++ .pop :: after ∧ m.run before = .ok (values, ⟨[], []⟩) := by
  induction word generalizing m with
  | nil =>
      constructor
      · intro h
        cases h
      · rintro ⟨-, before, after, values, heq, -⟩
        simp at heq
  | cons op word ih =>
      cases hstep : m.step op with
      | error fault' =>
          obtain ⟨rfl, rfl, rfl⟩ := step_error_iff.mp hstep
          rw [run_cons_error hstep]
          constructor
          · intro h
            cases h
            exact ⟨rfl, [], word, [], rfl, rfl⟩
          · rintro ⟨rfl, -⟩
            rfl
      | ok r =>
          obtain ⟨value, m'⟩ := r
          have hrest : m.run (op :: word) = .error fault ↔ m'.run word = .error fault := by
            rw [run_cons_ok hstep]
            cases m'.run word <;> simp [Except.map]
          rw [hrest, ih]
          -- the operation has gone well, so the pop that fails is behind it
          refine and_congr_right fun _ => ⟨?_, ?_⟩
          · rintro ⟨before, after, values, rfl, hbefore⟩
            refine ⟨op :: before, after, value :: values, rfl, ?_⟩
            rw [run_cons_ok hstep, hbefore]
            rfl
          · rintro ⟨before, after, values, heq, hbefore⟩
            cases before with
            | nil =>
                cases heq
                cases hbefore
                cases hstep
            | cons op' before =>
                obtain ⟨rfl, rfl⟩ := List.cons.inj heq
                rw [run_cons_ok hstep] at hbefore
                cases hrun : m'.run before with
                | error fault' =>
                    rw [hrun] at hbefore
                    cases hbefore
                | ok r =>
                    obtain ⟨values', m''⟩ := r
                    rw [hrun] at hbefore
                    cases hbefore
                    exact ⟨before, after, values', rfl, hrun⟩

end StackMachine

/-! ## Stacks in user data -/

namespace Value

/-- The elements of a value as a stack, front first. -/
def items? : Value → Option (List Value)
  | .null => some []
  | .list xs | .tuple xs | .deque xs => some xs
  | .bytes bs | .byteArray bs => some (bs.map fun b => .int b.toNat)
  | .range start stop step =>
    let length := progressionLength start stop step
    some ((List.range length).map fun i : Nat => .int (start + i * step))
  | _ => none

/-- What user data is after a stack operation that has left these elements. -/
def restacked : Value → List Value → Value
  | .tuple _, xs => .tuple xs
  | _, xs => .list xs

/-- The number of elements fits into a machine word, which only that of a range may not do. -/
def Sized : Value → Prop
  | .range start stop step => progressionLength start stop step ≤ Elements.maxWord
  | _ => True

theorem items?_restacked (u : Value) (xs : List Value) : (u.restacked xs).items? = some xs := by
  cases u <;> rfl

theorem sized_restacked (u : Value) (xs : List Value) : (u.restacked xs).Sized := by
  cases u <;> trivial

theorem restacked_restacked (u : Value) (xs ys : List Value) :
    (u.restacked xs).restacked ys = u.restacked ys := by
  cases u <;> rfl

end Value

theorem Elements.progressionList_eq (left : Nat) (next step : Int) :
    progressionList left next step = (List.range left).map fun i => .int (next + i * step) := by
  induction left generalizing next with
  | zero => rfl
  | succ left ih =>
      rw [progressionList, ih, List.range_succ_eq_map, List.map_cons, List.map_map]
      refine congrArg₂ List.cons (by simp) (List.map_congr_left fun i _ => ?_)
      simp only [Function.comp_apply, Nat.cast_succ, Value.int.injEq]
      ring

namespace Stack

variable {u : Value} {items : List Value}

/-- User data with elements is a stack of them. -/
theorem exists_ofValue (h : u.items? = some items) :
    ∃ st, ofValue u = .ok st ∧ st.elements.toList = items ∧
      (∀ xs, st.rebuild xs = u.restacked xs) ∧
      (u.Sized → writtenOut st.elements = .ok items) := by
  cases u with
  | null | list | tuple | deque | bytes | byteArray =>
      cases h
      exact ⟨_, rfl, rfl, fun _ => rfl, fun _ => rfl⟩
  | range start stop step =>
      cases h
      refine ⟨_, rfl, Elements.progressionList_eq _ _ _, fun _ => rfl, fun hsized => ?_⟩
      have hsize : Value.progressionLength start stop step ≤ Elements.maxWord := hsized
      simp only [writtenOut, Elements.size?, if_pos hsize, Elements.toList,
        Elements.progressionList_eq]
  | _ => cases h

/-- User data without elements is refused. -/
theorem ofValue_of_none (h : u.items? = none) : ofValue u = .error (.notSequence u.kind) := by
  cases u with
  | null | list | tuple | deque | bytes | byteArray | range => cases h
  | bool | int | str | dict | set | token | settings => rfl

/-- The front is taken off the elements. -/
theorem pop_eq (st : Stack) :
    st.pop = match st.elements.toList with
      | [] => .error .emptyStack
      | front :: rest => .ok (front, st.rebuild rest) := by
  obtain ⟨isTuple, es⟩ := st
  cases es with
  | listed xs => cases xs <;> rfl
  | progression left next step => cases left <;> rfl

theorem ofValue_push (h : u.items? = some items) (hsized : u.Sized) (value : Value) :
    (ofValue u).bind (push value) = .ok (u.restacked (value :: items)) := by
  obtain ⟨st, hst, -, hrebuild, hwritten⟩ := exists_ofValue h
  rw [hst]
  show (writtenOut st.elements).map _ = _
  rw [hwritten hsized, ← hrebuild]
  rfl

/-- A push asks for the size of what it is pushed onto. -/
theorem ofValue_push_unsized (h : ¬u.Sized) (value : Value) :
    (ofValue u).bind (push value) = .error .sizeTooLarge := by
  cases u with
  | range start stop step =>
      have hsize : ¬Value.progressionLength start stop step ≤ Elements.maxWord := h
      show (writtenOut (.progression _ start step)).map _ = _
      simp only [writtenOut, Elements.size?, if_neg hsize]
      rfl
  | _ => exact absurd trivial h

theorem ofValue_pop_nil (h : u.items? = some []) :
    (ofValue u).bind pop = .error .emptyStack := by
  obtain ⟨st, hst, hitems, -⟩ := exists_ofValue h
  rw [hst]
  show st.pop = _
  rw [pop_eq, hitems]

theorem ofValue_pop_cons {front : Value} {rest : List Value}
    (h : u.items? = some (front :: rest)) :
    (ofValue u).bind pop = .ok (front, u.restacked rest) := by
  obtain ⟨st, hst, hitems, hrebuild, -⟩ := exists_ofValue h
  rw [hst]
  show st.pop = _
  rw [pop_eq, hitems, ← hrebuild]

end Stack

/-! ## Runs -/

/-- Runs parsers one after the other and matches with the list of their values, behind those
collected so far, which are kept newest first. -/
def Parser.collect : List Value → List Parser → Parser
  | values, [] => Parser.pure (.list values.reverse)
  | values, p :: rest => p.bind fun value => collect (value :: values) rest

namespace StackOp

variable {u : Value} {position : Int} {budget : Nat} {ctx : Context}

def parser : StackOp → Parser
  | push value => .pushUserData value
  | pop => .popUserData

/-- A push needs the size of what it is pushed onto, and a pop does not. -/
def Fits (u : Value) : StackOp → Prop
  | push _ => u.Sized
  | pop => True

/-- What an operation has left behind fits every other one. -/
theorem fits_restacked (op : StackOp) (u : Value) (xs : List Value) :
    op.Fits (u.restacked xs) := by
  cases op with
  | push value => exact u.sized_restacked xs
  | pop => trivial

theorem run_modify {f : Value → Action Value} {data : Except Fault Value}
    (h : f u = .ofExcept data) :
    (Parser.modifyUserData f ⟨position, u⟩).run budget ctx =
      .ofExcept (data.map fun u' => .matched u' ⟨position, u'⟩) ctx := by
  show (Parser.ofAction (return Parser.putUserData (← f u)) ⟨position, u⟩).run budget ctx = _
  rw [h]
  cases data with
  | ok u' => rfl
  | error fault => rfl

theorem run_push (value u : Value) :
    (Parser.pushUserData value ⟨position, u⟩).run budget ctx =
      .ofExcept (((Stack.ofValue u).bind (Stack.push value)).map fun u' =>
        .matched value ⟨position, u'⟩) ctx := by
  rw [Parser.pushUserData, Parser.andThen, Run.run_bind, run_modify rfl]
  cases (Stack.ofValue u).bind (Stack.push value) with
  | ok u' => rfl
  | error fault => rfl

theorem run_pop (u : Value) :
    (Parser.popUserData ⟨position, u⟩).run budget ctx =
      .ofExcept (((Stack.ofValue u).bind Stack.pop).map fun r =>
        .matched r.1 ⟨position, r.2⟩) ctx := by
  rw [Parser.popUserData, Run.run_bind]
  cases (Stack.ofValue u).bind Stack.pop with
  | ok r => rfl
  | error fault => rfl

end StackOp

/-- User data that stands for a machine: it has the elements of the machine, and operations leave
the same form behind as on the user data from the start. -/
structure Represents (u v : Value) (m : StackMachine) : Prop where
  items : v.items? = some m.contents
  form : ∀ xs, v.restacked xs = u.restacked xs

theorem Represents.restacked (u : Value) (m : StackMachine) :
    Represents u (u.restacked m.contents) m :=
  ⟨u.items?_restacked _, u.restacked_restacked _⟩

namespace Represents

open StackOp (parser run_push run_pop fits_restacked)

variable {u v : Value} {m : StackMachine} {position : Int} {budget : Nat} {ctx : Context}

/-- An operation on the user data does what the machine does. -/
theorem run_op (h : Represents u v m) {op : StackOp} (hfits : op.Fits v) :
    (op.parser ⟨position, v⟩).run budget ctx =
      .ofExcept ((m.step op).map fun r => .matched r.1 ⟨position, u.restacked r.2.contents⟩)
        ctx := by
  obtain ⟨hitems, hform⟩ := h
  obtain ⟨pushed, original⟩ := m
  cases op with
  | push value =>
      rw [parser, run_push, Stack.ofValue_push hitems hfits value, hform]
      rfl
  | pop =>
      rw [parser, run_pop]
      cases pushed with
      | cons value pushed =>
          rw [Stack.ofValue_pop_cons hitems, hform]
          rfl
      | nil =>
          cases original with
          | cons value original =>
              rw [Stack.ofValue_pop_cons hitems, hform]
              rfl
          | nil =>
              rw [Stack.ofValue_pop_nil hitems]
              rfl

/-- What follows an operation goes on with its result, on user data that stands for the machine
after it. -/
theorem run_op_bind (h : Represents u v m) {op : StackOp} (hfits : op.Fits v)
    (f : Value → Parser) :
    (op.parser.bind f ⟨position, v⟩).run budget ctx =
      match m.step op with
      | .error fault => .raised fault ctx
      | .ok (value, m') => (f value ⟨position, u.restacked m'.contents⟩).run budget ctx := by
  rw [Parser.bind, Run.run_bind, h.run_op hfits]
  cases m.step op with
  | ok r => rfl
  | error fault => rfl

/-- A word gives the results of the machine in order. -/
theorem run_collect (h : Represents u v m) {op : StackOp} (hfits : op.Fits v)
    (word : List StackOp) (values : List Value) :
    (Parser.collect values ((op :: word).map parser) ⟨position, v⟩).run budget ctx =
      .ofExcept ((m.run (op :: word)).map fun r =>
        .matched (.list (values.reverse ++ r.1)) ⟨position, u.restacked r.2.contents⟩) ctx := by
  induction word generalizing op v m values with
  | nil =>
      rw [List.map_cons, Parser.collect, h.run_op_bind hfits, StackMachine.ofExcept_run_cons]
      cases m.step op with
      | error fault => rfl
      | ok r =>
          show Ending.done (Outcome.matched (.list (r.1 :: values).reverse) _) ctx = _
          rw [List.reverse_cons]
          rfl
  | cons next word ih =>
      rw [List.map_cons, Parser.collect, h.run_op_bind hfits, StackMachine.ofExcept_run_cons]
      cases m.step op with
      | error fault => rfl
      | ok r =>
          -- from here on the user data has the form that the first operation has left
          have hrest := ih (.restacked u r.2) (next.fits_restacked u _) (r.1 :: values)
          rw [List.reverse_cons] at hrest
          simpa only [List.append_assoc, List.singleton_append] using hrest

/-- A sequence gives the last result of the machine. -/
theorem run_bindAll (h : Represents u v m) {op : StackOp} (hfits : op.Fits v)
    (word : List StackOp) (default : Value) :
    (Parser.bindAll op.parser (word.map parser) ⟨position, v⟩).run budget ctx =
      .ofExcept ((m.run (op :: word)).map fun r =>
        .matched (r.1.getLastD default) ⟨position, u.restacked r.2.contents⟩) ctx := by
  induction word generalizing op v m default with
  | nil =>
      rw [List.map_nil, Parser.bindAll, h.run_op hfits, StackMachine.ofExcept_run_cons]
      cases m.step op with
      | error fault => rfl
      | ok r => rfl
  | cons next word ih =>
      rw [List.map_cons, Parser.bindAll, h.run_op_bind hfits, StackMachine.ofExcept_run_cons]
      cases m.step op with
      | error fault => rfl
      | ok r =>
          simpa only [List.getLastD_cons] using
            ih (.restacked u r.2) (next.fits_restacked u _) r.1

theorem run_sequence (h : Represents u v m) {op : StackOp} (hfits : op.Fits v) (next : StackOp)
    (word : List StackOp) :
    (Parser.sequence op.parser next.parser (word.map parser) ⟨position, v⟩).run budget ctx =
      .ofExcept ((m.run (op :: next :: word)).map fun r =>
        .matched (r.1.getLastD .null) ⟨position, u.restacked r.2.contents⟩) ctx := by
  rw [Parser.sequence_eq_bindAll]
  exact h.run_bindAll hfits (next :: word) .null

end Represents

/-! ## Words on user data -/

variable {u : Value} {position : Int} {budget : Nat} {ctx : Context} {p : Parser} {fault : Fault}

/-- A fault of the first parser is the end. -/
theorem Parser.run_collect_raised {s : State} (h : (p s).run budget ctx = .raised fault ctx)
    (rest : List Parser) : (collect [] (p :: rest) s).run budget ctx = .raised fault ctx := by
  rw [collect, Parser.bind, Run.run_bind, h]
  rfl

theorem Parser.run_sequence_raised {s : State} (h : (p s).run budget ctx = .raised fault ctx)
    (q : Parser) (rest : List Parser) :
    (sequence p q rest s).run budget ctx = .raised fault ctx := by
  have hraised : Visit.run ⟨s, ctx⟩ p budget = .raised fault ctx := h
  have hmissed : (Visit.run ⟨s, ctx⟩ p budget).Missed := by
    rw [hraised]
    nofun
  rw [sequence_eq_bindAll]
  exact (run_bindAll_missed hmissed).trans hraised

/-- No operation is defined on user data without elements. -/
theorem StackOp.run_refused (h : u.items? = none) (op : StackOp) :
    (op.parser ⟨position, u⟩).run budget ctx = .raised (.notSequence u.kind) ctx := by
  cases op with
  | push value =>
      rw [parser, run_push, Stack.ofValue_of_none h]
      rfl
  | pop =>
      rw [parser, run_pop, Stack.ofValue_of_none h]
      rfl

/-- Nothing is pushed onto a range that is longer than a machine word says. -/
theorem StackOp.run_push_unsized (h : ¬u.Sized) (value : Value) :
    ((push value).parser ⟨position, u⟩).run budget ctx = .raised .sizeTooLarge ctx := by
  rw [parser, run_push, Stack.ofValue_push_unsized h]
  rfl

/-- **Words of pushes and pops do what a stack machine does.** On user data with elements, which is
null or any sequence but a text, a word gives the results of the machine that is started with these
elements: each push the value pushed, each pop the newest value that has been pushed and not yet
popped, or else the next of the elements from the start. The user data is then a tuple if it was one
and a list otherwise, with the elements that the machine is left with; the position and the context
are the same as before. The only fault is that of the first pop that meets the empty stack, and it
ends the word there. A value that is popped right after it has been pushed leaves the elements as
they were. Only a word that begins with a push does otherwise, on a range whose size does not fit
into a machine word: that push raises. On user data of another kind the first operation raises, and
no operation at all changes nothing. -/
theorem stack_words (u : Value) (position : Int) (budget : Nat) (ctx : Context) :
    (∀ items, u.items? = some items →
      (∀ op : StackOp, op.Fits u → ∀ word,
        (Parser.collect [] ((op :: word).map StackOp.parser) ⟨position, u⟩).run budget ctx =
            .ofExcept ((StackMachine.run ⟨[], items⟩ (op :: word)).map fun r =>
              .matched (.list r.1) ⟨position, u.restacked r.2.contents⟩) ctx ∧
          ∀ next,
            (Parser.sequence op.parser next.parser (word.map StackOp.parser) ⟨position, u⟩).run
                budget ctx =
              .ofExcept ((StackMachine.run ⟨[], items⟩ (op :: next :: word)).map fun r =>
                .matched (r.1.getLastD .null) ⟨position, u.restacked r.2.contents⟩) ctx) ∧
      (∀ word fault, StackMachine.run ⟨[], items⟩ word = .error fault ↔
        fault = .emptyStack ∧ ∃ before after values, word = before ++ .pop :: after ∧
          StackMachine.run ⟨[], items⟩ before = .ok (values, ⟨[], []⟩)) ∧
      (u.Sized → ∀ value,
        (Parser.sequence (.pushUserData value) .popUserData [] ⟨position, u⟩).run budget ctx =
          .done (.matched value ⟨position, u.restacked items⟩) ctx)) ∧
    (¬u.Sized → ∀ value word,
      (Parser.collect [] ((.push value :: word).map StackOp.parser) ⟨position, u⟩).run budget ctx =
          .raised .sizeTooLarge ctx ∧
        ∀ next : StackOp,
          (Parser.sequence (.pushUserData value) next.parser (word.map StackOp.parser)
            ⟨position, u⟩).run budget ctx = .raised .sizeTooLarge ctx) ∧
    (u.items? = none → ∀ op word,
      (Parser.collect [] ((op :: word).map StackOp.parser) ⟨position, u⟩).run budget ctx =
          .raised (.notSequence u.kind) ctx ∧
        ∀ next : StackOp,
          (Parser.sequence op.parser next.parser (word.map StackOp.parser) ⟨position, u⟩).run
            budget ctx = .raised (.notSequence u.kind) ctx) ∧
    (Parser.collect [] [] ⟨position, u⟩).run budget ctx =
      .done (.matched (.list []) ⟨position, u⟩) ctx := by
  -- what the first operation raises ends a word, whichever way it is put together
  have hraised : ∀ {op : StackOp} {fault : Fault},
      (op.parser ⟨position, u⟩).run budget ctx = .raised fault ctx → ∀ word,
        (Parser.collect [] ((op :: word).map StackOp.parser) ⟨position, u⟩).run budget ctx =
            .raised fault ctx ∧
          ∀ next : StackOp,
            (Parser.sequence op.parser next.parser (word.map StackOp.parser) ⟨position, u⟩).run
              budget ctx = .raised fault ctx :=
    fun h word => ⟨Parser.run_collect_raised h _, fun _ => Parser.run_sequence_raised h _ _⟩
  refine ⟨fun items hitems => ?_, fun hsized value => ?_, fun hnone op => ?_, rfl⟩
  · have hstart : Represents u u ⟨[], items⟩ := ⟨hitems, fun _ => rfl⟩
    refine ⟨fun op hfits word => ⟨hstart.run_collect hfits word [], fun next => ?_⟩,
      fun word fault => StackMachine.run_error_iff, fun hsized value => ?_⟩
    · exact hstart.run_sequence hfits next word
    · have hfits : (StackOp.push value).Fits u := hsized
      exact hstart.run_sequence hfits .pop []
  · exact hraised (StackOp.run_push_unsized hsized value)
  · exact hraised (op.run_refused hnone)

/-- The members of a range are popped behind the value that has been pushed, one pop too many meets
the empty stack, and neither a text nor a range of 2 ^ 63 members is pushed onto. -/
theorem stack_words_countdown :
    Value.items? (.range 5 0 (-2)) = some [.int 5, .int 3, .int 1] ∧
      Value.Sized (.range 5 0 (-2)) ∧ Value.items? (.str "ab") = none ∧
      ¬Value.Sized (.range 0 9223372036854775808 1) ∧
      (Parser.collect [] ([.push (.str "x"), .pop, .pop].map StackOp.parser)
        ⟨0, .range 5 0 (-2)⟩).run 1 (.opened (.ofTokens []) .fresh) =
          .done (.matched (.list [.str "x", .str "x", .int 5]) ⟨0, .list [.int 3, .int 1]⟩)
            (.opened (.ofTokens []) .fresh) ∧
      (Parser.sequence .popUserData .popUserData
        ([.pop, .pop, .push .null].map StackOp.parser) ⟨0, .range 5 0 (-2)⟩).run 1
          (.opened (.ofTokens []) .fresh) = .raised .emptyStack (.opened (.ofTokens []) .fresh) ∧
      (Parser.sequence (.pushUserData .null) .popUserData [] ⟨0, .range 5 0 (-2)⟩).run 1
        (.opened (.ofTokens []) .fresh) =
          .done (.matched .null ⟨0, .list [.int 5, .int 3, .int 1]⟩)
            (.opened (.ofTokens []) .fresh) ∧
      (Parser.collect [] ([.pop].map StackOp.parser) ⟨0, .str "ab"⟩).run 1
        (.opened (.ofTokens []) .fresh) =
          .raised (.notSequence "str") (.opened (.ofTokens []) .fresh) ∧
      (Parser.sequence (.pushUserData .null) .popUserData []
        ⟨0, .range 0 9223372036854775808 1⟩).run 1 (.opened (.ofTokens []) .fresh) =
          .raised .sizeTooLarge (.opened (.ofTokens []) .fresh) := by
  have hitems : Value.items? (.range 5 0 (-2)) = some [.int 5, .int 3, .int 1] := by cbv
  have hsized : Value.progressionLength 5 0 (-2) ≤ Elements.maxWord := by decide
  have hunsized : ¬Value.progressionLength 0 9223372036854775808 1 ≤ Elements.maxWord := by decide
  obtain ⟨hwords, -, hback⟩ :=
    (stack_words (.range 5 0 (-2)) 0 1 (.opened (.ofTokens []) .fresh)).1 _ hitems
  have hlong := (stack_words (.range 0 9223372036854775808 1) 0 1
    (.opened (.ofTokens []) .fresh)).2.1 hunsized .null []
  have hrefused := (stack_words (.str "ab") 0 1 (.opened (.ofTokens []) .fresh)).2.2.1 rfl .pop []
  exact ⟨hitems, hsized, rfl, hunsized, (hwords (.push (.str "x")) hsized [.pop, .pop]).1,
    (hwords .pop trivial [.pop, .pop, .push .null]).2 .pop, hback hsized .null, hrefused.1,
    hlong.2 .pop⟩

/-- A range of 2 ^ 63 members has elements, and the machine pushes onto them, but a list of all of
them with one more in front is too long. -/
theorem stack_words_long_range :
    ∃ items, Value.items? (.range 0 9223372036854775808 1) = some items ∧
      StackMachine.run ⟨[], items⟩ [.push (.int 1)] = .ok ([.int 1], ⟨[.int 1], items⟩) ∧
      (Parser.collect [] [StackOp.parser (.push (.int 1))]
        ⟨0, .range 0 9223372036854775808 1⟩).run 1 (.opened (.ofTokens []) .fresh) =
          .raised .sizeTooLarge (.opened (.ofTokens []) .fresh) := by
  have hunsized : ¬Value.Sized (.range 0 9223372036854775808 1) := by
    show ¬Value.progressionLength 0 9223372036854775808 1 ≤ Elements.maxWord
    decide
  refine ⟨_, rfl, rfl, ?_⟩
  exact Parser.run_collect_raised (StackOp.run_push_unsized hunsized _) []

end PullParse
