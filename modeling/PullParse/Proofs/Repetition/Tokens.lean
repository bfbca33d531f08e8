import PullParse.Proofs.Cache.Finite
import PullParse.Proofs.Progress.Consuming
import PullParse.Proofs.Reading.Instrumented
import PullParse.Proofs.Reading.Results
import PullParse.Proofs.Repetition.Loops

/-!
# Repetitions of single tokens

What the three loops make of a stream when their parts are tests of single
tokens. A repetition takes the longest run of tokens that pass, a repetition up
to a terminator ends at the first token that the terminator takes, and a
repetition with a separator takes the longest alternation of elements and
separators that begins and ends with an element. The end token is where they
differ: a test that passes it matches in place, so that a repetition stalls
there, while a terminator that passes it ends the loop there.
-/

namespace PullParse

/-! ## Tests and streams -/

/-- The test gives this answer for every class, whatever notes it leaves. -/
def Decides (test : Value → Action Bool) (f : Value → Bool) : Prop :=
  ∀ cls, (test cls).result = .ok (f cls)

/-- What does not hold for ever holds up to some number, and not of that number. -/
theorem exists_first_failure {property : Nat → Prop} (h : ∃ i, ¬property i) :
    ∃ n, (∀ i < n, property i) ∧ ¬property n := by
  classical
  exact ⟨Nat.find h, fun i hi => not_not.mp (Nat.find_min h hi), Nat.find_spec h⟩

namespace TokenStream

/-- The first end token stands at the index. -/
structure EndsAt (t : TokenStream) (last : Nat) : Prop where
  isOpen : t.Open last
  isEof : (t last).isEof = true

/-- The first `n` tokens from the index `k` on pass, and all of them stand before the end. -/
def Passing (t : TokenStream) (f : Value → Bool) (last k n : Nat) : Prop :=
  k + n ≤ last ∧ ∀ i < n, f (t (k + i)).cls = true

/-- From the index `k` on there are `n` elements, and separators between them. -/
def Alternating (t : TokenStream) (f g : Value → Bool) (k n : Nat) : Prop :=
  (∀ i < n, f (t (k + 2 * i)).cls = true) ∧ ∀ i, i + 1 < n → g (t (k + 2 * i + 1)).cls = true

variable {t : TokenStream} {f g : Value → Bool} {last k n : Nat}

/-- A test that rejects the end rejects the end token. -/
theorem isEof_of_passes (hf : f .null = false) (h : f (t k).cls = true) : (t k).isEof = false := by
  by_contra he
  rw [Token.cls_of_isEof (Bool.eq_true_of_not_eq_false he), hf] at h
  cases h

/-- The longest run ends before the end token, or before a token that does not pass. -/
theorem exists_longest_run (t : TokenStream) (f : Value → Bool) (hk : k ≤ last) :
    ∃ n, IsGreatest {n | t.Passing f last k n} n ∧
      (k + n = last ∨ k + n < last ∧ f (t (k + n)).cls = false) := by
  have hends : ∃ i, ¬(k + i < last ∧ f (t (k + i)).cls = true) := ⟨last - k, by omega⟩
  obtain ⟨n, hall, hstop⟩ := exists_first_failure hends
  have hle : k + n ≤ last := by
    cases n with
    | zero => exact hk
    | succ n =>
        have := (hall n n.lt_succ_self).1
        omega
  refine ⟨n, ⟨⟨hle, fun i hi => (hall i hi).2⟩, fun m hm => ?_⟩, ?_⟩
  · by_contra hlt
    have hmore := hm.1
    exact hstop ⟨by omega, hm.2 n (not_le.mp hlt)⟩
  · rcases Nat.eq_or_lt_of_le hle with heq | hlt
    · exact Or.inl heq
    · exact Or.inr ⟨hlt, Bool.eq_false_iff.mpr fun hpass => hstop ⟨hlt, hpass⟩⟩

/-- An alternation of tests that reject the end token stands before it. -/
theorem Alternating.before_end (h : t.Alternating f g k (n + 1)) (hf : f .null = false)
    (hg : g .null = false) (hend : t.EndsAt last) (hk : k ≤ last) : k + 2 * n < last := by
  by_contra hle
  have hcls := Token.cls_of_isEof hend.isEof
  obtain ⟨i, hi | hi⟩ : ∃ i, last = k + 2 * i ∨ last = k + 2 * i + 1 := ⟨(last - k) / 2, by omega⟩
  · have hpass := h.1 i (by omega)
    rw [← hi, hcls, hf] at hpass
    cases hpass
  · have hpass := h.2 i (by omega)
    rw [← hi, hcls, hg] at hpass
    cases hpass

/-- The longest alternation ends before a token that does not continue it. -/
theorem exists_longest_alternation (hf : f .null = false) (hg : g .null = false)
    (hend : t.EndsAt last) (hk : k ≤ last) :
    ∃ n, IsGreatest {n | t.Alternating f g k n} n ∧
      (f (t (k + 2 * n)).cls = true → ∃ m, n = m + 1 ∧ g (t (k + 2 * m + 1)).cls = false) := by
  have hends : ∃ i, ¬(f (t (k + 2 * i)).cls = true ∧
      ∀ m, i = m + 1 → g (t (k + 2 * m + 1)).cls = true) := by
    by_contra hforever
    push Not at hforever
    have hlong : t.Alternating f g k (last + 1) :=
      ⟨fun i _ => (hforever i).1, fun i _ => (hforever (i + 1)).2 i rfl⟩
    have := hlong.before_end hf hg hend hk
    omega
  obtain ⟨n, hall, hstop⟩ := exists_first_failure hends
  refine ⟨n, ⟨⟨fun i hi => (hall i hi).1, fun i hi => (hall (i + 1) hi).2 i rfl⟩, ?_⟩, ?_⟩
  · intro m hm
    by_contra hlt
    refine hstop ⟨hm.1 n (not_le.mp hlt), ?_⟩
    rintro i rfl
    exact hm.2 i (not_le.mp hlt)
  · intro hpass
    by_contra hnone
    refine hstop ⟨hpass, fun m hm => ?_⟩
    by_contra hfails
    exact hnone ⟨m, hm, Bool.eq_false_iff.mpr hfails⟩

end TokenStream

/-! ## Several rounds of a loop -/

namespace Reading

variable {α β : Type}

theorem result_bind_pure (x : Reading α) (f : α → β) :
    (x >>= fun a => pure (f a)).result = x.result.map (Except.map f) := by
  cases hx : x.result with
  | none => rw [bind_of_unfinished hx]; rfl
  | some result =>
      cases result with
      | error fault => rw [bind_of_error hx]; rfl
      | ok a => rw [bind_of_ok hx]; rfl

end Reading

namespace Reader

variable {name : String} {guard : Bool} {r terminator : Reader} {left : Nat} {s s' : State}
variable {v : Value}

/-- What a loop finds, with values of earlier rounds in front. -/
def inFront (values : List Value) (rest : List Value × State) : List Value × State :=
  (values ++ rest.1, rest.2)

/-- A round that has moved on is followed by the rounds that are left. -/
theorem result_rounds_again (h : (r s).result = some (.ok (.matched v s')))
    (hmoved : s'.position ≠ s.position) :
    (rounds name guard r (left + 1) s).result =
      (rounds name guard r left s').result.map (.map (inFront [v])) := by
  have hstall : ¬Parser.stalls guard s s' = true := by simp [Parser.stalls, hmoved]
  rw [rounds, Reading.result_bind_ok h]
  simp only [hstall]
  exact Reading.result_bind_pure _ _

/-- A round in place stalls a guarded repetition. -/
theorem result_rounds_stalled (h : (r s).result = some (.ok (.matched v s')))
    (hposition : s'.position = s.position) :
    (rounds name true r (left + 1) s).result =
      some (.error (.stalled (.str name) (.int s.position))) := by
  have hstall : Parser.stalls true s s' = true := by simp [Parser.stalls, hposition]
  rw [rounds, Reading.result_bind_ok h]
  simp only [hstall]
  rfl

theorem result_roundsUntil_again (hterminator : (terminator s).result = some (.ok .noMatch))
    (h : (r s).result = some (.ok (.matched v s'))) (hmoved : s'.position ≠ s.position) :
    (roundsUntil guard r terminator (left + 1) s).result =
      (roundsUntil guard r terminator left s').result.map (.map (.map (inFront [v]))) := by
  have hstall : ¬Parser.stalls guard s s' = true := by simp [Parser.stalls, hmoved]
  rw [roundsUntil, Reading.result_bind_ok hterminator, Reading.result_bind_ok h]
  simp only [hstall]
  rw [← Reading.result_bind_pure]
  refine congrArg (fun f => Reading.result (roundsUntil guard r terminator left s' >>= f)) ?_
  funext found
  cases found with
  | some rest => rfl
  | none => rfl

/-- The terminator ends the loop, wherever it leads. -/
theorem result_roundsUntil_last (h : (terminator s).result = some (.ok (.matched v s'))) :
    (roundsUntil guard r terminator (left + 1) s).result = some (.ok (some ([], s'))) := by
  rw [roundsUntil, Reading.result_bind_ok h]
  rfl

theorem result_roundsUntil_missed (hterminator : (terminator s).result = some (.ok .noMatch))
    (h : (r s).result = some (.ok .noMatch)) :
    (roundsUntil guard r terminator (left + 1) s).result = some (.ok none) := by
  rw [roundsUntil, Reading.result_bind_ok hterminator, Reading.result_bind_ok h]
  rfl

/-- Rounds that lead from state to state, and the rounds that are left behind them. What the loop
finds is changed by the value of each round in the same way. -/
theorem result_through {α : Type} (loop : Nat → State → Reading α) (front : List Value → α → α)
    (hnil : ∀ found, front [] found = found)
    (happend : ∀ vs ws found, front vs (front ws found) = front (vs ++ ws) found)
    (states : Nat → State) (values : Nat → Value) {n : Nat}
    (hstep : ∀ i < n, ∀ left, (loop (left + 1) (states i)).result =
      (loop left (states (i + 1))).result.map (.map (front [values i]))) (left : Nat) :
    (loop (left + n) (states 0)).result =
      (loop left (states n)).result.map (.map (front ((List.range n).map values))) := by
  induction n generalizing left with
  | zero =>
      have hfront : front [] = id := funext hnil
      rw [List.range_zero, List.map_nil, hfront, Except.map_id, Option.map_id]
      rfl
  | succ n ih =>
      have hbefore := ih (fun i hi => hstep i (by omega)) (left + 1)
      rw [hstep n n.lt_succ_self] at hbefore
      rw [Nat.add_assoc, Nat.add_comm 1 n] at hbefore
      rw [hbefore, List.range_succ, List.map_append]
      cases (loop left (states (n + 1))).result with
      | none => rfl
      | some result =>
          cases result with
          | error fault => rfl
          | ok found => exact congrArg (fun a => some (Except.ok a)) (happend _ _ found)

theorem result_rounds_through (states : Nat → State) (values : Nat → Value) {n : Nat}
    (h : ∀ i < n, (r (states i)).result = some (.ok (.matched (values i) (states (i + 1)))))
    (hmoved : ∀ i < n, (states (i + 1)).position ≠ (states i).position) (left : Nat) :
    (rounds name guard r (left + n) (states 0)).result =
      (rounds name guard r left (states n)).result.map
        (.map (inFront ((List.range n).map values))) :=
  result_through (rounds name guard r) inFront (fun _ => rfl)
    (fun vs ws found => by simp [inFront]) states values
    (fun i hi _ => result_rounds_again (h i hi) (hmoved i hi)) left

/-! ## Readers of single tokens -/

variable {t : TokenStream} {f g : Value → Bool} {last k : Nat} {u : Value}

/-- The reader takes one token whose class passes, and stays in front of the end token. -/
def Takes (t : TokenStream) (f : Value → Bool) (r : Reader) : Prop :=
  ∀ (k : Nat) (u : Value), (r ⟨k, u⟩).result = some (.ok (
    if f (t k).cls then .matched (t k).value ⟨if (t k).isEof then k else (k + 1 : Nat), u⟩
    else .noMatch))

theorem takes_satisfy {settings : Settings} {budget : Nat} {rule : String → List Value → Reader}
    {test : Value → Action Bool} (h : Decides test f) :
    Takes t f ((Grammar.satisfy test).read t settings budget rule) := by
  intro k u
  rw [Grammar.result_satisfy (h _)]
  simp only [Int.toNat_natCast]
  cases (t k).isEof with
  | true => rfl
  | false => rfl

namespace Takes

theorem noMatch (h : Takes t f r) (hfails : f (t k).cls = false) :
    (r ⟨k, u⟩).result = some (.ok .noMatch) := by
  rw [h, hfails]
  rfl

theorem matched (h : Takes t f r) (hpass : f (t k).cls = true) (hopen : (t k).isEof = false) :
    (r ⟨k, u⟩).result = some (.ok (.matched (t k).value ⟨(k + 1 : Nat), u⟩)) := by
  rw [h, hpass, hopen]
  rfl

/-- The end token is matched in place. -/
theorem matched_end (h : Takes t f r) (hpass : f (t k).cls = true) (hend : (t k).isEof = true) :
    (r ⟨k, u⟩).result = some (.ok (.matched (t k).value ⟨k, u⟩)) := by
  rw [h, hpass, hend]
  rfl

end Takes

/-- A guarded repetition takes the longest run before the end, and stalls at the end if the end
token passes as well. -/
theorem rounds_takes (name : String) (h : Takes t f r) (hend : t.EndsAt last) (hk : k ≤ last)
    (hleft : last - k < left) :
    ∃ n, IsGreatest {n | t.Passing f last k n} n ∧
      ((∀ i, k ≤ i → i ≤ last → f (t i).cls = true) →
        (rounds name true r left ⟨k, u⟩).result =
          some (.error (.stalled (.str name) (.int last)))) ∧
      ((∃ i, k ≤ i ∧ i ≤ last ∧ f (t i).cls = false) →
        (rounds name true r left ⟨k, u⟩).result =
          some (.ok ((List.range n).map fun i => (t (k + i)).value, ⟨(k + n : Nat), u⟩))) := by
  obtain ⟨n, hgreatest, hstop⟩ := t.exists_longest_run f hk
  obtain ⟨hle, hpass⟩ := hgreatest.1
  obtain ⟨left, rfl⟩ : ∃ m, left = m + 1 + n := ⟨left - 1 - n, by omega⟩
  have hthrough : (rounds name true r (left + 1 + n) ⟨k, u⟩).result = _ :=
    result_rounds_through (fun i => ⟨(k + i : Nat), u⟩) (fun i => (t (k + i)).value)
      (fun i hi => h.matched (hpass i hi) (hend.isOpen _ (by omega))) (fun i _ => by simp) (left + 1)
  refine ⟨n, hgreatest, fun hall => ?_, fun ⟨i, hki, hil, hfails⟩ => ?_⟩
  · obtain rfl : k + n = last := by
      rcases hstop with heq | ⟨hlt, hfails⟩
      · exact heq
      · rw [hall _ (by omega) hlt.le] at hfails
        cases hfails
    rw [hthrough, result_rounds_stalled (h.matched_end (hall _ hk le_rfl) hend.isEof) rfl]
    rfl
  · have hnext : f (t (k + n)).cls = false := by
      rcases hstop with heq | ⟨-, hnext⟩
      · -- the run reaches up to the end token, which is the one that does not pass
        rcases Nat.lt_or_ge i (k + n) with hlt | hge
        · have hi := hpass (i - k) (by omega)
          rw [Nat.add_sub_cancel' hki, hfails] at hi
          cases hi
        · rwa [show k + n = i by omega]
      · exact hnext
    rw [hthrough, result_rounds_noMatch (h.noMatch hnext)]
    simp [inFront, Except.map]

/-- Rounds of tokens up to an index before which the terminator takes none, and the rounds that are
left behind them. -/
theorem roundsUntil_takes (guard : Bool) (h : Takes t (fun cls => !Parser.isEndClass cls) r)
    (hterminator : Takes t g terminator) (hend : t.EndsAt last) {n : Nat} (hn : k + n ≤ last)
    (hfails : ∀ i < n, g (t (k + i)).cls = false) (left : Nat) :
    (roundsUntil guard r terminator (left + n) ⟨k, u⟩).result =
      (roundsUntil guard r terminator left ⟨(k + n : Nat), u⟩).result.map
        (.map (.map (inFront ((List.range n).map fun i => (t (k + i)).value)))) := by
  refine result_through (roundsUntil guard r terminator) (fun values => Option.map (inFront values))
    (fun found => ?_) (fun vs ws found => ?_) (fun i => ⟨(k + i : Nat), u⟩)
    (fun i => (t (k + i)).value) (fun i hi left => ?_) left
  · cases found with
    | none => rfl
    | some rest => rfl
  · cases found with
    | none => rfl
    | some rest => simp [inFront]
  · have hopen : (t (k + i)).isEof = false := hend.isOpen _ (by omega)
    have htoken : (!Parser.isEndClass (t (k + i)).cls) = true := by
      rw [show Parser.isEndClass (t (k + i)).cls = (t (k + i)).isEof from rfl, hopen]
      rfl
    exact result_roundsUntil_again (hterminator.noMatch (hfails i hi)) (h.matched htoken hopen)
      (by simp)

/-- A repetition of tokens ends at the first one that the terminator takes. -/
theorem roundsUntil_least (guard : Bool) (h : Takes t (fun cls => !Parser.isEndClass cls) r)
    (hterminator : Takes t g terminator) (hend : t.EndsAt last) (hleft : last - k < left) {j : Nat}
    (hj : IsLeast {j | k ≤ j ∧ j ≤ last ∧ g (t j).cls = true} j) :
    (roundsUntil guard r terminator left ⟨k, u⟩).result =
      some (.ok (some ((List.range (j - k)).map fun i => (t (k + i)).value,
        ⟨if j = last then last else (j + 1 : Nat), u⟩))) := by
  obtain ⟨⟨hkj, hjl, hpass⟩, hleast⟩ := hj
  obtain ⟨n, rfl⟩ : ∃ n, j = k + n := ⟨j - k, by omega⟩
  obtain ⟨left, rfl⟩ : ∃ m, left = m + 1 + n := ⟨left - 1 - n, by omega⟩
  have hfails : ∀ i < n, g (t (k + i)).cls = false := by
    intro i hi
    by_contra htakes
    have hle := hleast ⟨by omega, by omega, Bool.eq_true_of_not_eq_false htakes⟩
    omega
  have hlast : (terminator ⟨(k + n : Nat), u⟩).result = some (.ok (.matched (t (k + n)).value
      ⟨if k + n = last then last else (k + n + 1 : Nat), u⟩)) := by
    by_cases heq : k + n = last
    · rw [if_pos heq, heq]
      exact hterminator.matched_end (heq ▸ hpass) hend.isEof
    · rw [if_neg heq]
      exact hterminator.matched hpass (hend.isOpen _ (by omega))
  rw [roundsUntil_takes guard h hterminator hend hjl hfails, result_roundsUntil_last hlast]
  simp [inFront, Except.map]

/-- Where the terminator takes no token up to the end, nothing is found. -/
theorem roundsUntil_none (guard : Bool) (h : Takes t (fun cls => !Parser.isEndClass cls) r)
    (hterminator : Takes t g terminator) (hend : t.EndsAt last) (hk : k ≤ last)
    (hleft : last - k < left) (hnone : ∀ j, k ≤ j → j ≤ last → g (t j).cls = false) :
    (roundsUntil guard r terminator left ⟨k, u⟩).result = some (.ok none) := by
  obtain ⟨n, rfl⟩ : ∃ n, last = k + n := ⟨last - k, by omega⟩
  obtain ⟨left, rfl⟩ : ∃ m, left = m + 1 + n := ⟨left - 1 - n, by omega⟩
  have hmissed : (r ⟨(k + n : Nat), u⟩).result = some (.ok .noMatch) := by
    refine h.noMatch ?_
    rw [show Parser.isEndClass (t (k + n)).cls = (t (k + n)).isEof from rfl, hend.isEof]
    rfl
  rw [roundsUntil_takes guard h hterminator hend le_rfl fun i hi => hnone _ (by omega) (by omega),
    result_roundsUntil_missed (hterminator.noMatch (hnone _ hk le_rfl)) hmissed]
  rfl

end Reader

namespace Grammar

variable {t : TokenStream} {settings : Settings} {budget : Nat}
variable {rule : String → List Value → Reader} {p q : Value → Action Bool} {f g : Value → Bool}
variable {last k : Nat} {u : Value}

/-- A round with a separator takes the separator and the element behind it, or nothing. -/
theorem result_separated (hp : Decides p f) (hq : Decides q g) (hf : f .null = false)
    (hg : g .null = false) :
    ((andThen (satisfy q) (satisfy p)).read t settings budget rule ⟨k, u⟩).result =
      some (.ok (if g (t k).cls && f (t (k + 1)).cls then
        .matched (t (k + 1)).value ⟨(k + 2 : Nat), u⟩ else .noMatch)) := by
  have hitem : Reader.Takes t f ((satisfy p).read t settings budget rule) :=
    Reader.takes_satisfy hp
  have hsep : Reader.Takes t g ((satisfy q).read t settings budget rule) :=
    Reader.takes_satisfy hq
  cases hg' : g (t k).cls with
  | false => exact result_andThen_noMatch (hsep.noMatch hg')
  | true =>
      rw [result_andThen_matched (hsep.matched hg' (TokenStream.isEof_of_passes hg hg'))]
      cases hf' : f (t (k + 1)).cls with
      | false => exact hitem.noMatch hf'
      | true => exact hitem.matched hf' (TokenStream.isEof_of_passes hf hf')

/-- Behind the first element the rounds take the rest of the longest alternation. -/
theorem result_rounds_separated (name : String) (guard : Bool) (hp : Decides p f)
    (hq : Decides q g) (hf : f .null = false) (hg : g .null = false) {m : Nat}
    (h : t.Alternating f g k (m + 1))
    (hstop : g (t (k + 2 * m + 1)).cls = true → f (t (k + 2 * (m + 1))).cls = false)
    {left : Nat} (hleft : m < left) :
    (Reader.rounds name guard ((andThen (satisfy q) (satisfy p)).read t settings budget rule)
      left ⟨(k + 1 : Nat), u⟩).result =
        some (.ok ((List.range m).map fun i => (t (k + 2 * (i + 1))).value,
          ⟨(k + 2 * m + 1 : Nat), u⟩)) := by
  obtain ⟨left, rfl⟩ : ∃ n, left = n + 1 + m := ⟨left - 1 - m, by omega⟩
  have hround : ∀ i < m, ((andThen (satisfy q) (satisfy p)).read t settings budget rule
      ⟨(k + 2 * i + 1 : Nat), u⟩).result = some (.ok (.matched (t (k + 2 * (i + 1))).value
        ⟨(k + 2 * (i + 1) + 1 : Nat), u⟩)) := by
    intro i hi
    have hboth : (g (t (k + 2 * i + 1)).cls && f (t (k + 2 * i + 1 + 1)).cls) = true := by
      rw [h.2 i (by omega), Bool.true_and]
      exact h.1 (i + 1) (by omega)
    rw [result_separated hp hq hf hg, if_pos hboth]
    rfl
  have hlast : ((andThen (satisfy q) (satisfy p)).read t settings budget rule
      ⟨(k + 2 * m + 1 : Nat), u⟩).result = some (.ok .noMatch) := by
    rw [result_separated hp hq hf hg, if_neg]
    intro hboth
    obtain ⟨hsep, hitem⟩ := Bool.and_eq_true_iff.mp hboth
    cases (hstop hsep).symm.trans hitem
  refine (Reader.result_rounds_through (fun i => ⟨(k + 2 * i + 1 : Nat), u⟩)
    (fun i => (t (k + 2 * (i + 1))).value) hround (fun i _ => ?_) (left + 1)).trans ?_
  · simp only [ne_eq, Nat.cast_inj]
    omega
  · rw [Reader.result_rounds_noMatch hlast]
    simp [Reader.inFront, Except.map]

/-- A repetition with a separator takes the longest alternation. A separator behind it is given
back. -/
theorem result_sepBy_satisfy (hp : Decides p f) (hq : Decides q g) (hf : f .null = false)
    (hg : g .null = false) (hend : t.EndsAt last) (hk : k ≤ last) (hbudget : last - k < budget) :
    ∃ n, IsGreatest {n | t.Alternating f g k n} n ∧
      ((sepBy (satisfy p) (satisfy q)).read t settings budget rule ⟨k, u⟩).result =
        some (.ok (.matched (.list ((List.range n).map fun i => (t (k + 2 * i)).value))
          ⟨if n = 0 then k else (k + 2 * n - 1 : Nat), u⟩)) := by
  have hitem : Reader.Takes t f ((satisfy p).read t settings budget rule) :=
    Reader.takes_satisfy hp
  obtain ⟨n, hgreatest, hstop⟩ := TokenStream.exists_longest_alternation hf hg hend hk
  refine ⟨n, hgreatest, ?_⟩
  cases n with
  | zero =>
      have hfails : f (t k).cls = false := by
        by_contra hpass
        obtain ⟨m, hm, -⟩ := hstop (Bool.eq_true_of_not_eq_false hpass)
        cases hm
      have hnone : ((sepBy1 (satisfy p) (satisfy q)).read t settings budget rule ⟨k, u⟩).result =
          some (.ok .noMatch) := Reading.result_bind_ok (hitem.noMatch hfails) _
      rw [sepBy, result_either_noMatch hnone]
      rfl
  | succ m =>
      have hbefore := hgreatest.1.before_end hf hg hend hk
      have hstop' : g (t (k + 2 * m + 1)).cls = true → f (t (k + 2 * (m + 1))).cls = false := by
        intro hsep
        by_contra hpass
        obtain ⟨_, ⟨⟩, hfails⟩ := hstop (Bool.eq_true_of_not_eq_false hpass)
        cases hsep.symm.trans hfails
      have hf' : f (t k).cls = true := hgreatest.1.1 0 m.succ_pos
      have hall : ((sepBy1 (satisfy p) (satisfy q)).read t settings budget rule ⟨k, u⟩).result =
          some (.ok (.matched (.list ((List.range (m + 1)).map fun i => (t (k + 2 * i)).value))
            ⟨(k + 2 * m + 1 : Nat), u⟩)) := by
        rw [List.range_succ_eq_map, List.map_cons, List.map_map]
        refine (Reading.result_bind_ok
          (hitem.matched hf' (TokenStream.isEof_of_passes hf hf')) _).trans ?_
        exact Reading.result_bind_ok (result_rounds_separated "sep_by1" settings.guard.truth hp hq
          hf hg hgreatest.1 hstop' (by omega)) _
      rw [sepBy, result_either_matched hall, if_neg m.succ_ne_zero,
        show k + 2 * (m + 1) - 1 = k + 2 * m + 1 by omega]

end Grammar

/-! ## The loops over a stream -/

/-- A parser that is read as it runs gives in a run what its reading gives. -/
theorem Parser.ReadsAs.result?_eq {p : Parser} {r : Reader} {src : Producer} {t : TokenStream}
    {budget : Nat} {ctx : Context} {s : State}
    (h : Parser.ReadsAs .any src t ctx.session.settings budget p r)
    (hctx : ctx.cache.Holds src t) (hs : s.InRange ctx.cache) :
    ((p s).run budget ctx).result? = (r s).result :=
  (h s ctx ⟨hctx, rfl⟩ hs).result?_eq

/-- **Loops over tokens mean what their names say.** Over a producer that delivers a stream, from
every position up to the end, a guarded repetition of a test gives the payloads of the longest run of
tokens before the end that pass, and ends right behind them; it stalls at the end if and only if all
tokens pass, the end token included. A repetition of any token up to a test ends behind the first
token that passes, or in front of the end token if that is the one, with the payloads of all tokens
before it, and does not match if and only if none passes. If neither test passes the end, a
repetition with a separator gives every second payload of the longest alternation and ends behind its
last element, whether or not some classes pass both tests. -/
theorem token_loops (src : Producer) (t : TokenStream) (hsrc : src.Delivers t) (last : Nat)
    (hend : t.EndsAt last) (ctx : Context) (hctx : ctx.cache.Reached src) (k : Nat) (u : Value)
    (hs : State.InRange ⟨k, u⟩ ctx.cache) (budget : Nat) (hbudget : last - k < budget)
    (p q : Value → Action Bool) (f g : Value → Bool) (hp : Decides p f) (hq : Decides q g) :
    k ≤ last ∧
      (ctx.isGuarded = true → ∃ n, IsGreatest {n | t.Passing f last k n} n ∧
        ((((Parser.satisfy p).many ⟨k, u⟩).run budget ctx).result? =
            some (.error (.stalled (.str "many") (.int last))) ↔
          ∀ i, k ≤ i → i ≤ last → f (t i).cls = true) ∧
        ((∃ i, k ≤ i ∧ i ≤ last ∧ f (t i).cls = false) →
          (((Parser.satisfy p).many ⟨k, u⟩).run budget ctx).result? = some (.ok (.matched
            (.list ((List.range n).map fun i => (t (k + i)).value)) ⟨(k + n : Nat), u⟩)))) ∧
      ((∀ j, IsLeast {j | k ≤ j ∧ j ≤ last ∧ g (t j).cls = true} j →
          ((Parser.anyToken.manyUntil (.satisfy q) ⟨k, u⟩).run budget ctx).result? =
            some (.ok (.matched (.list ((List.range (j - k)).map fun i => (t (k + i)).value))
              ⟨if j = last then last else (j + 1 : Nat), u⟩))) ∧
        (((Parser.anyToken.manyUntil (.satisfy q) ⟨k, u⟩).run budget ctx).result? =
            some (.ok .noMatch) ↔ ∀ j, k ≤ j → j ≤ last → g (t j).cls = false)) ∧
      (f .null = false → g .null = false → ∃ n, IsGreatest {n | t.Alternating f g k n} n ∧
        (((Parser.satisfy p).sepBy (.satisfy q) ⟨k, u⟩).run budget ctx).result? =
          some (.ok (.matched (.list ((List.range n).map fun i => (t (k + 2 * i)).value))
            ⟨if n = 0 then k else (k + 2 * n - 1 : Nat), u⟩))) := by
  have hk : k ≤ last := by
    have hle : (k : Int) ≤ last :=
      (hctx.endsBy (hsrc.endsAt hend.isOpen hend.isEof)).position_le hs
    exact_mod_cast hle
  have hholds := hctx.holds hsrc
  have hread : ∀ test, Parser.ReadsAs .any src t ctx.session.settings budget (.satisfy test)
      ((Grammar.satisfy test).read t ctx.session.settings budget fun _ _ _ => .unfinished) :=
    fun test => .satisfy (by decide) hsrc test _
  refine ⟨hk, fun hguard => ?_, ?_, fun hf hg => ?_⟩
  · have hmany := (hread p).many.result?_eq hholds hs
    have hguard' : ctx.session.settings.guard.truth = true := hguard
    rw [hguard'] at hmany
    obtain ⟨n, hgreatest, hstalled, htaken⟩ := Reader.rounds_takes (u := u) "many"
      (Reader.takes_satisfy hp) hend hk hbudget
    have hmatched := fun hfails => hmany.trans (Reading.result_bind_ok (htaken hfails) _)
    refine ⟨n, hgreatest, ⟨fun hresult i hki hil => ?_, fun hall => ?_⟩, hmatched⟩
    · by_contra hfails
      cases (hmatched ⟨i, hki, hil, Bool.eq_false_iff.mpr hfails⟩).symm.trans hresult
    · exact hmany.trans (Reading.result_bind_error (hstalled hall) _)
  · have huntil := ((hread fun cls => return !Parser.isEndClass cls).manyUntil
      (hread q)).result?_eq hholds hs
    have hfound := fun j hj => huntil.trans (Reading.result_bind_ok
      (Reader.roundsUntil_least (u := u) (j := j) _ (Reader.takes_satisfy fun _ => rfl)
        (Reader.takes_satisfy hq) hend hbudget hj) _)
    refine ⟨hfound, fun hnone j hkj hjl => ?_, fun hnone => ?_⟩
    · by_contra htakes
      have hleast := isLeast_csInf (s := {j | k ≤ j ∧ j ≤ last ∧ g (t j).cls = true})
        ⟨j, hkj, hjl, Bool.eq_true_of_not_eq_false htakes⟩
      cases (hfound _ hleast).symm.trans hnone
    · exact huntil.trans (Reading.result_bind_ok (Reader.roundsUntil_none _
        (Reader.takes_satisfy fun _ => rfl) (Reader.takes_satisfy hq) hend hk hbudget hnone) _)
  · obtain ⟨n, hgreatest, hmatched⟩ := Grammar.result_sepBy_satisfy hp hq hf hg hend hk hbudget
    exact ⟨n, hgreatest, (((hread p).sepBy1 (hread q)).either
      (.inPlace (fun _ => .list []) State.userData)).result?_eq hholds hs |>.trans hmatched⟩

/-- A list with a separator behind its last item. -/
def trailingList : List Token :=
  [⟨.str "a", .int 1⟩, ⟨.str ",", .null⟩, ⟨.str "a", .int 2⟩, ⟨.str ",", .null⟩]

/-- The repetition takes the first item, the first separator ends the loop that looks for one, and
the last separator is given back. -/
theorem token_loops_trailing :
    (Producer.ofTokens trailingList).Delivers (.ofList trailingList) ∧
      (TokenStream.ofList trailingList).EndsAt 4 ∧
      State.InRange ⟨(0 : Nat), .null⟩ (Cache.fresh (.ofTokens trailingList)) ∧
      (Decides (fun cls => return cls.equal (.str "a")) fun cls => cls.equal (.str "a")) ∧
      (Decides (fun cls => return cls.equal (.str ",")) fun cls => cls.equal (.str ",")) ∧
      (((Parser.is (.str "a")).many ⟨(0 : Nat), .null⟩).run 5
        (.opened (.ofTokens trailingList) .fresh)).result? =
          some (.ok (.matched (.list [.int 1]) ⟨(1 : Nat), .null⟩)) ∧
      ((Parser.anyToken.manyUntil (.is (.str ",")) ⟨(0 : Nat), .null⟩).run 5
        (.opened (.ofTokens trailingList) .fresh)).result? =
          some (.ok (.matched (.list [.int 1]) ⟨(2 : Nat), .null⟩)) ∧
      (((Parser.is (.str "a")).sepBy (.is (.str ",")) ⟨(0 : Nat), .null⟩).run 5
        (.opened (.ofTokens trailingList) .fresh)).result? =
          some (.ok (.matched (.list [.int 1, .int 2]) ⟨(3 : Nat), .null⟩)) := by
  have hsrc := Producer.delivers_ofTokens trailingList
  have hend : (TokenStream.ofList trailingList).EndsAt 4 := by
    refine ⟨fun j hj => ?_, rfl⟩
    interval_cases j <;> rfl
  have hs : State.InRange ⟨(0 : Nat), .null⟩ (Cache.fresh (.ofTokens trailingList)) :=
    State.inRange_start _ _
  have hp : Decides (fun cls => return cls.equal (.str "a")) fun cls => cls.equal (.str "a") :=
    fun _ => rfl
  have hq : Decides (fun cls => return cls.equal (.str ",")) fun cls => cls.equal (.str ",") :=
    fun _ => rfl
  obtain ⟨-, hmany, ⟨huntil, -⟩, hsep⟩ := token_loops _ _ hsrc 4 hend
    (.opened (.ofTokens trailingList) .fresh) ⟨[], rfl⟩ 0 .null hs 5 (by decide) _ _ _ _ hp hq
  have hitem : ∀ i < 5, ((TokenStream.ofList trailingList i).cls.equal (.str "a")) =
      decide (i = 0 ∨ i = 2) := by
    intro i hi
    interval_cases i <;> cbv
  have hcomma : ∀ i < 5, ((TokenStream.ofList trailingList i).cls.equal (.str ",")) =
      decide (i = 1 ∨ i = 3) := by
    intro i hi
    interval_cases i <;> cbv
  refine ⟨hsrc, hend, hs, hp, hq, ?_, ?_, ?_⟩
  · obtain ⟨n, hgreatest, -, hmatched⟩ := hmany rfl
    obtain rfl : n = 1 := by
      refine hgreatest.unique ⟨⟨by decide, fun i hi => ?_⟩, fun m hm => ?_⟩
      · obtain rfl : i = 0 := by omega
        exact hitem 0 (by decide)
      · by_contra hlt
        cases (hm.2 1 (not_le.mp hlt)).symm.trans (hitem 1 (by decide))
    exact hmatched ⟨1, by decide, by decide, hitem 1 (by decide)⟩
  · refine huntil 1 ⟨⟨by decide, by decide, hcomma 1 (by decide)⟩, fun j hj => ?_⟩
    by_contra hlt
    obtain rfl : j = 0 := by omega
    cases hj.2.2.symm.trans (hcomma 0 (by decide))
  · obtain ⟨n, hgreatest, hmatched⟩ := hsep (hitem 4 (by decide)) (hcomma 4 (by decide))
    obtain rfl : n = 2 := by
      refine hgreatest.unique ⟨⟨fun i hi => ?_, fun i hi => ?_⟩, fun m hm => ?_⟩
      · interval_cases i
        · exact hitem 0 (by decide)
        · exact hitem 2 (by decide)
      · obtain rfl : i = 0 := by omega
        exact hcomma 1 (by decide)
      · by_contra hlt
        cases (hm.1 2 (not_le.mp hlt)).symm.trans (hitem 4 (by decide))
    exact hmatched

end PullParse
