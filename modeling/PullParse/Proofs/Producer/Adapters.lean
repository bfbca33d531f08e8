import PullParse.Proofs.Cache.Streams

/-!
# Adapters of collections

An adapter goes through the elements of a collection, one for each call. What it has
read after some calls is a front part of them that ends with the first end item at the
latest, and the flag that closes it tells whether the calls have gone beyond that part.
An item that is no pair is read like the others. If none stands before the end, a cache
over the adapter finds the items at their positions and is terminated when the adapter
is closed.
-/

namespace PullParse

/-! ## Elements as a list -/

theorem Elements.toList_eq (es : Elements) :
    es.toList = match es.next? with
      | none => []
      | some (item, rest) => item :: rest.toList := by
  cases es with
  | listed xs => cases xs <;> rfl
  | progression left next step => cases left <;> rfl

theorem Elements.take_eq (n : Nat) (es : Elements) : es.take n = es.toList.take n := by
  induction n generalizing es with
  | zero => rfl
  | succ n ih =>
      rw [take, es.toList_eq]
      cases es.next? with
      | none => rfl
      | some next => simp only [ih, List.take_succ_cons]

/-- Three elements are enough to see whether there are two. -/
theorem Token.ofParts_take_eq_ok_iff {xs : List Value} {token : Token} :
    ofParts (xs.take 3) = .ok token ↔ xs = [token.cls, token.value] := by
  obtain ⟨cls, value⟩ := token
  rcases xs with _ | ⟨x, _ | ⟨y, _ | ⟨z, rest⟩⟩⟩ <;> simp [ofParts]

/-- A token is taken for itself, and a collection for a pair if it has exactly two elements. -/
theorem Token.ofPair_eq_ok_iff {item : Value} {token : Token} :
    ofPair item = .ok token ↔
      item = token.toValue ∨
        ∃ es, item.elements? = some es ∧ es.toList = [token.cls, token.value] := by
  cases item with
  | token cls value =>
      obtain ⟨cls', value'⟩ := token
      simp [ofPair, toValue, Value.elements?]
  | _ =>
      simp [ofPair, toValue, Value.elements?, Elements.take_eq, ofParts_take_eq_ok_iff]

/-- Whether the item ends what an adapter delivers. -/
def Value.closes (item : Value) : Bool :=
  match Token.ofPair item with
  | .ok t => t.isEof
  | .error _ => false

/-- The index of the first end item, or the number of items if there is none. -/
def Elements.stop (es : Elements) : Nat := es.toList.findIdx Value.closes

namespace Producer

/-- The adapter of a collection after some calls: it has read one element for each, but none behind
the first end item, and it is closed if it has been called behind the end. -/
structure Adapts (p : Producer) (es : Elements) (n : Nat) : Prop where
  calls : p.calls = n
  source : ∃ rest, p.source = .items rest (decide (es.stop < n)) ∧
    rest.toList = es.toList.drop (min n (es.stop + 1))

/-- What the adapter answers to a call: the item of that number as a pair, the fault if the item
is none, and the end pair behind the end. -/
def adapted (es : Elements) (n : Nat) : Except Fault Value :=
  match es.toList[n]? with
  | some item => if n ≤ es.stop then (Token.ofPair item).map Token.toPair else .ok Token.eof.toPair
  | none => .ok Token.eof.toPair

end Producer

/-! ## Single calls -/

theorem Source.call_nil (calls : Nat) {rest : Elements} (h : rest.toList = []) :
    Source.call calls (.items rest false) = (.ok Token.eof.toPair, .items rest true) := by
  rw [rest.toList_eq] at h
  rw [call]
  cases hnext : rest.next? with
  | none => rfl
  | some next => rw [hnext] at h; cases h

/-- A call reads one element, whatever it is, and closes the adapter if it is an end item. -/
theorem Source.call_cons (calls : Nat) {rest : Elements} {item : Value} {items : List Value}
    (h : rest.toList = item :: items) :
    ∃ rest', rest'.toList = items ∧
      Source.call calls (.items rest false) =
        ((Token.ofPair item).map Token.toPair, .items rest' item.closes) := by
  rw [rest.toList_eq] at h
  rw [call]
  cases hnext : rest.next? with
  | none => rw [hnext] at h; cases h
  | some next =>
      rw [hnext] at h
      obtain ⟨rfl, rfl⟩ := List.cons.inj h
      refine ⟨next.2, rfl, ?_⟩
      simp only [Value.closes]
      cases Token.ofPair next.1 with
      | error fault => rfl
      | ok token => rfl

namespace Elements

variable {es : Elements} {n : Nat} {item : Value}

theorem stop_le (es : Elements) : es.stop ≤ es.toList.length := List.findIdx_le_length

/-- An item that is read closes the adapter if it is the one at the end. -/
theorem closes_eq (hn : n ≤ es.stop) (hitem : es.toList[n]? = some item) :
    item.closes = decide (es.stop < n + 1) := by
  obtain ⟨hlt, rfl⟩ := List.getElem?_eq_some_iff.mp hitem
  rcases Nat.eq_or_lt_of_le hn with rfl | hbefore
  · have hcloses : es.toList[es.stop].closes = true := List.findIdx_getElem
    simp [hcloses]
  · have hopen : es.toList[n].closes = false := List.not_of_lt_findIdx hbefore
    simp [hopen, Nat.not_lt.mpr (Nat.succ_le_of_lt hbefore)]

/-- The elements stop where there are no more, or at an end item. -/
theorem stop_eq_of_none (hn : n ≤ es.stop) (hnone : es.toList[n]? = none) :
    n = es.stop ∧ n = es.toList.length := by
  have hlength := List.getElem?_eq_none_iff.mp hnone
  have hstop := es.stop_le
  omega

end Elements

namespace Producer

variable {p : Producer} {es : Elements} {n : Nat}

theorem adapted_of_lt (h : es.stop < n) : adapted es n = .ok Token.eof.toPair := by
  rw [adapted]
  split
  · rw [if_neg (by omega)]
  · rfl

/-- One call of an adapter: the answer, and where the adapter stands after it. -/
theorem Adapts.next (h : p.Adapts es n) : p.next.1 = adapted es n ∧ p.next.2.Adapts es (n + 1) := by
  obtain ⟨source, calls⟩ := p
  obtain ⟨hcalls, rest, hsource, hrest⟩ := h
  obtain rfl : calls = n := hcalls
  obtain rfl : source = .items rest (decide (es.stop < calls)) := hsource
  rcases Nat.lt_or_ge es.stop calls with hbehind | hn
  · -- behind the end the adapter is closed
    rw [decide_eq_true hbehind]
    rw [Nat.min_eq_right hbehind] at hrest
    refine ⟨(adapted_of_lt hbehind).symm, rfl, rest, ?_, ?_⟩
    · rw [decide_eq_true (Nat.lt_succ_of_lt hbehind)]
      rfl
    · rw [hrest, Nat.min_eq_right (Nat.le_succ_of_le hbehind)]
  · rw [decide_eq_false (Nat.not_lt.mpr hn)]
    rw [Nat.min_eq_left (Nat.le_succ_of_le hn)] at hrest
    cases hitem : es.toList[calls]? with
    | none =>
        -- the elements are used up, and the call closes the adapter
        obtain ⟨hstop, hlength⟩ := Elements.stop_eq_of_none hn hitem
        have hnil : rest.toList = [] := by rw [hrest, hlength, List.drop_length]
        have hcall := Source.call_nil calls hnil
        refine ⟨?_, rfl, rest, ?_, ?_⟩
        · rw [adapted, hitem]
          exact congrArg Prod.fst hcall
        · rw [decide_eq_true (by omega)]
          exact congrArg Prod.snd hcall
        · rw [hnil, List.drop_of_length_le (by omega)]
    | some item =>
        have hcons : rest.toList = item :: es.toList.drop (calls + 1) := by
          rw [hrest, List.drop_eq_getElem?_toList_append, hitem]
          rfl
        obtain ⟨rest', hrest', hcall⟩ := Source.call_cons calls hcons
        refine ⟨?_, rfl, rest', ?_, ?_⟩
        · rw [adapted, hitem]
          simp only [if_pos hn]
          exact congrArg Prod.fst hcall
        · rw [← Elements.closes_eq hn hitem]
          exact congrArg Prod.snd hcall
        · rw [hrest', Nat.min_eq_left (Nat.succ_le_succ hn)]

theorem adapts_after (es : Elements) (n : Nat) : ((ofElements es).after n).Adapts es n := by
  induction n with
  | zero => exact ⟨rfl, es, rfl, by simp⟩
  | succ n ih => exact ih.next.2

end Producer

namespace Producer

theorem after_next (p : Producer) (n : Nat) : p.next.2.after n = p.after (n + 1) := by
  induction n with
  | zero => rfl
  | succ n ih => rw [after, ih]; rfl

theorem answers_eq (p : Producer) (n : Nat) :
    p.answers n = (List.range n).map fun i => (p.after i).next.1 := by
  induction n generalizing p with
  | zero => rfl
  | succ n ih =>
      show p.next.1 :: p.next.2.answers n = _
      rw [ih, List.range_succ_eq_map, List.map_cons, List.map_map]
      exact congrArg (_ :: ·) (List.map_congr_left fun i _ => by rw [after_next]; rfl)

end Producer

/-! ## Caches over an adapter -/

/-- The item that stands at the index as a token, and the end token where there is none. -/
def Elements.tokens (es : Elements) : TokenStream := fun i =>
  match es.toList[i]?.map Token.ofPair with
  | some (.ok token) => token
  | _ => .eof

/-- The token is what stands at the index: the item, or the end token behind the last one. -/
def Elements.Brings (es : Elements) (i : Nat) (token : Token) : Prop :=
  (∀ item, es.toList[i]? = some item → Token.ofPair item = .ok token) ∧
    (es.toList[i]? = none → token = .eof)

/-- Every item before the end is a pair. -/
def Elements.Sound (es : Elements) : Prop :=
  ∀ i < es.stop, ∀ item, es.toList[i]? = some item → ∃ token, Token.ofPair item = .ok token

namespace Elements

variable {es : Elements} {i : Nat}

/-- The item at the end is a pair, as it is an end item. -/
theorem Sound.brings (h : es.Sound) (hi : i ≤ es.stop) : es.Brings i (es.tokens i) := by
  refine ⟨fun item hitem => ?_, fun hnone => by simp [tokens, hnone]⟩
  have hpair : ∃ token, Token.ofPair item = .ok token := by
    rcases Nat.eq_or_lt_of_le hi with rfl | hlt
    · have hcloses := closes_eq hi hitem
      rw [decide_eq_true (Nat.lt_succ_self _)] at hcloses
      rw [Value.closes] at hcloses
      cases hofPair : Token.ofPair item with
      | ok token => exact ⟨token, rfl⟩
      | error fault => rw [hofPair] at hcloses; cases hcloses
    · exact h i hlt item hitem
  obtain ⟨token, htoken⟩ := hpair
  simp [tokens, hitem, htoken]

/-- The end token of the stream is where the elements stop. -/
theorem Sound.isEof_tokens (h : es.Sound) (hi : i ≤ es.stop) :
    (es.tokens i).isEof = decide (es.stop < i + 1) := by
  obtain ⟨hsome, hnone⟩ := h.brings hi
  cases hitem : es.toList[i]? with
  | none =>
      obtain ⟨hstop, -⟩ := stop_eq_of_none hi hitem
      rw [hnone hitem, decide_eq_true (by omega)]
      rfl
  | some item =>
      rw [← closes_eq hi hitem, Value.closes, hsome item hitem]

theorem Sound.le_stop (h : es.Sound) {k : Nat} (hopen : es.tokens.Open k) : k ≤ es.stop := by
  by_contra hbehind
  have hend := hopen es.stop (not_le.mp hbehind)
  rw [h.isEof_tokens le_rfl, decide_eq_true (Nat.lt_succ_self _)] at hend
  cases hend

theorem Sound.delivers (h : es.Sound) : (Producer.ofElements es).Delivers es.tokens := by
  intro k hopen
  have hk := h.le_stop hopen
  rw [(Producer.adapts_after es k).next.1, Producer.adapted]
  obtain ⟨hsome, hnone⟩ := h.brings hk
  cases hitem : es.toList[k]? with
  | none => rw [hnone hitem]; rfl
  | some item =>
      simp only [if_pos hk, hsome item hitem]
      exact (es.tokens k).ofPair_toPair

end Elements

namespace Cache.Holds

variable {c : Cache} {p : Producer} {es : Elements}

theorem length_le_stop (h : c.Holds p es.tokens) (hes : es.Sound) : c.length ≤ es.stop + 1 := by
  have := hes.le_stop h.isOpen
  omega

/-- The cache is terminated when the adapter is closed. -/
theorem terminated_eq (h : c.Holds p es.tokens) (hes : es.Sound) :
    c.terminated = decide (es.stop < c.length) := by
  have hle := hes.le_stop h.isOpen
  rw [Bool.eq_iff_iff, h.terminated_iff, hes.isEof_tokens hle, decide_eq_true_iff,
    decide_eq_true_iff]
  omega

/-- A read up to the end, and not ahead of the cache, finds what stands at its position. -/
theorem tokenAt_brings (h : c.Holds (.ofElements es) es.tokens) (hes : es.Sound) {i : Nat}
    (hlength : i ≤ c.length) (hi : i ≤ es.stop) :
    ∃ token, (c.tokenAt i).1 = .ok token ∧ es.Brings i token := by
  have hs : State.InRange ⟨i, .null⟩ c := by
    refine ⟨Int.natCast_nonneg i, Int.ofNat_le.mpr hlength, fun hterm => ?_⟩
    rw [h.terminated_eq hes, decide_eq_true_iff] at hterm
    show (i : Int) ≤ c.length - 1
    omega
  obtain ⟨c', hread, -⟩ := h.tokenAt_of_inRange hes.delivers hs
  exact ⟨es.tokens i, congrArg Prod.fst hread, hes.brings hi⟩

end Cache.Holds

/-- **An adapter delivers the elements in order, and its end for ever.** After any number of calls
it has read as many elements as it has been called, but none behind the first end item, and it is
closed if it has been called behind the end. So each call up to the end is answered with the item of
its number, as a pair of a class and a payload if it is a token or has exactly two elements, and
with the fault of taking it apart if not, and then the next call goes on with the next item. The end
item is answered with its own payload, and every call behind it, or behind the last item, with the
end pair. A cache over the adapter, if every item before the end is a pair, has made one call for
each token and at most one more than there are items before the end. It finds at every position up
to the end the item that stands there, or the end token behind the last item, and it is terminated
when the adapter is closed. -/
theorem adapter_delivers (es : Elements) :
    (∀ n, ∃ rest, (Producer.ofElements es).after n = ⟨.items rest (decide (es.stop < n)), n⟩ ∧
        rest.toList = es.toList.drop (min n (es.stop + 1))) ∧
      (∀ i item, i ≤ es.stop → es.toList[i]? = some item →
        ((Producer.ofElements es).after i).next.1 = (Token.ofPair item).map Token.toPair) ∧
      (∀ i, es.stop < i ∨ es.toList[i]? = none →
        ((Producer.ofElements es).after i).next.1 = .ok Token.eof.toPair) ∧
      (∀ n, (Producer.ofElements es).answers n =
        (List.range n).map fun i => ((Producer.ofElements es).after i).next.1) ∧
      (∀ item token, Token.ofPair item = .ok token ↔ item = token.toValue ∨
        ∃ parts, item.elements? = some parts ∧ parts.toList = [token.cls, token.value]) ∧
      (es.Sound → ∀ ks c, (Cache.fresh (.ofElements es)).reads ks = c →
        c.producer.calls = c.length ∧ c.length ≤ es.stop + 1 ∧
          c.terminated = decide (es.stop < c.length) ∧
          (∀ (i : Nat) token, c.tokens[i]? = some token → es.Brings i token) ∧
          ∀ i : Nat, i ≤ c.length → i ≤ es.stop →
            ∃ token, (c.tokenAt i).1 = .ok token ∧ es.Brings i token) := by
  refine ⟨fun n => ?_, fun i item hi hitem => ?_, fun i hbehind => ?_, Producer.answers_eq _,
    fun item token => Token.ofPair_eq_ok_iff, fun hes ks c hc => ?_⟩
  · obtain ⟨hcalls, rest, hsource, hrest⟩ := Producer.adapts_after es n
    refine ⟨rest, ?_, hrest⟩
    rw [← hsource]
    exact congrArg (Producer.mk _) hcalls
  · rw [(Producer.adapts_after es i).next.1, Producer.adapted, hitem]
    exact if_pos hi
  · rw [(Producer.adapts_after es i).next.1]
    rcases hbehind with hlt | hnone
    · exact Producer.adapted_of_lt hlt
    · rw [Producer.adapted, hnone]
  · have hholds : c.Holds (.ofElements es) es.tokens := Cache.Reached.holds hes.delivers ⟨ks, hc⟩
    refine ⟨?_, hholds.length_le_stop hes, hholds.terminated_eq hes, fun i token hget => ?_,
      fun i => hholds.tokenAt_brings hes⟩
    · rw [hholds.producer, Producer.calls_after]
      exact Nat.zero_add _
    · have hlt : i < c.length := (Array.getElem?_eq_some_iff.mp hget).1
      have hi : i ≤ es.stop := by
        have := hholds.length_le_stop hes
        omega
      rw [hholds.getElem?_tokens hlt] at hget
      cases hget
      exact hes.brings hi

/-- An item that is no pair is read and raised for, and the adapter goes on behind it. -/
example : (Producer.ofElements (.listed [.int 7, .pair (.str "a") (.int 1)])).answers 3 =
    [.error (.notUnpackable (Value.int 7).kind), .ok (.pair (.str "a") (.int 1)),
      .ok Token.eof.toPair] := rfl

/-- A pair, a text of two characters and an end item, and behind it what is never read. -/
def adaptedItems : List Value :=
  [.pair (.str "a") (.int 1), .str "bc", .token .null (.str "end"), .int 7]

/-- The end item is the third one. It comes with its own payload, and reads of a cache make three
calls however often it is read. -/
theorem adapter_delivers_items :
    Elements.Sound (.listed adaptedItems) ∧
      (Producer.ofElements (.listed adaptedItems)).answers 5 =
        [.ok (.pair (.str "a") (.int 1)), .ok (.pair (.str "b") (.str "c")),
          .ok (.pair .null (.str "end")), .ok Token.eof.toPair, .ok Token.eof.toPair] ∧
      ((Cache.fresh (.ofElements (.listed adaptedItems))).reads [0, 1, 2, 3, 9, 0]).producer.calls =
        3 ∧
      (((Cache.fresh (.ofElements (.listed adaptedItems))).reads
        [0, 1, 2, 3, 9, 0]).tokenAt 2).1 = .ok ⟨.null, .str "end"⟩ := by
  have hstop : Elements.stop (.listed adaptedItems) = 2 := by cbv
  have hsound : Elements.Sound (.listed adaptedItems) := by
    intro i hi item hitem
    rw [hstop] at hi
    obtain rfl | rfl : i = 0 ∨ i = 1 := by omega
    · cases hitem
      exact ⟨⟨.str "a", .int 1⟩, rfl⟩
    · cases hitem
      exact ⟨⟨.str "b", .str "c"⟩, rfl⟩
  obtain ⟨-, hitems, hbehind, hanswers, -, hcache⟩ := adapter_delivers (.listed adaptedItems)
  obtain ⟨hcalls, -, -, -, hreads⟩ := hcache hsound [0, 1, 2, 3, 9, 0] _ rfl
  have hlength : ((Cache.fresh (.ofElements (.listed adaptedItems))).reads
      [0, 1, 2, 3, 9, 0]).length = 3 := by cbv
  refine ⟨hsound, ?_, hcalls.trans hlength, ?_⟩
  · rw [hanswers]
    simp only [List.range_succ, List.range_zero, List.nil_append, List.cons_append, List.map_cons,
      List.map_nil, hitems 0 _ (by omega) rfl, hitems 1 _ (by omega) rfl,
      hitems 2 _ (by omega) rfl, hbehind 3 (.inl (by omega)), hbehind 4 (.inl (by omega))]
    rfl
  · obtain ⟨token, htoken, hbrings, -⟩ := hreads 2 (by omega) (by omega)
    cases hbrings _ rfl
    exact htoken

end PullParse
