import PullParse.Nesting
import Mathlib.Tactic

/-!
# Words of brackets

A word is balanced if every bracket in it has its partner. Whether a list of
tokens starts with a balanced word, and how deep that word is, is a matter of
counting the brackets that are open: no balanced word closes more of them than it
opens, so the bracket that closes another one is unique, and behind a balanced
word every list goes on as if it started there.
-/

namespace PullParse.Nesting

/-- A balanced word is empty, or a bracket pair around one balanced word and in front of another. -/
inductive Balanced : List Token → Prop
  | nil : Balanced []
  | pair {opening closing : Token} {inner rest : List Token} (hopening : opening.cls = openingClass)
      (hinner : Balanced inner) (hclosing : closing.cls = closingClass) (hrest : Balanced rest) :
      Balanced (opening :: (inner ++ closing :: rest))

/-- What a token adds to the number of open brackets. -/
def weight (token : Token) : Int :=
  if token.cls.equal openingClass then 1 else if token.cls.equal closingClass then -1 else 0

/-- The number of brackets that are open behind a word. -/
def height (word : List Token) : Int := (word.map weight).sum

/-- The greatest number of brackets that are open anywhere in a word. -/
def depth : List Token → Int
  | [] => 0
  | token :: word => max 0 (weight token + depth word)

/-- The longest of the balanced words that a list starts with. -/
structure LongestBalanced (ts word : List Token) : Prop where
  front : word <+: ts
  balanced : Balanced word
  longest : ∀ other, other <+: ts → Balanced other → other.length ≤ word.length

/-- No balanced word but the empty one stands at the front of a list. -/
def Stuck (ts : List Token) : Prop := ∀ word, word <+: ts → Balanced word → word = []

/-! ## Heights -/

theorem weight_opening {token : Token} (h : token.cls = openingClass) : weight token = 1 := by
  simp [weight, h, openingClass, Value.equal]

theorem weight_closing {token : Token} (h : token.cls = closingClass) : weight token = -1 := by
  simp [weight, h, openingClass, closingClass, Value.equal]

@[simp] theorem height_nil : height [] = 0 := rfl

@[simp] theorem height_cons (token : Token) (word : List Token) :
    height (token :: word) = weight token + height word := by
  simp [height]

@[simp] theorem height_append (word rest : List Token) :
    height (word ++ rest) = height word + height rest := by
  simp [height]

theorem depth_nonneg (word : List Token) : 0 ≤ depth word := by
  cases word with
  | nil => exact le_rfl
  | cons token word => exact le_max_left _ _

theorem depth_append (word rest : List Token) :
    depth (word ++ rest) = max (depth word) (height word + depth rest) := by
  induction word with
  | nil =>
      have hrest := depth_nonneg rest
      simp [depth, hrest]
  | cons token word ih =>
      rw [List.cons_append, depth, ih, height_cons, depth]
      omega

/-- The depth bounds the height of every prefix. -/
theorem height_le_depth {front word : List Token} (h : front <+: word) :
    height front ≤ depth word := by
  obtain ⟨rest, rfl⟩ := h
  have hrest := depth_nonneg rest
  have hfront : height front ≤ depth front := by
    induction front with
    | nil => exact le_rfl
    | cons token front ih =>
        rw [height_cons, depth]
        omega
  rw [depth_append]
  omega

/-- The depth is the height of a prefix. -/
theorem exists_height_eq_depth (word : List Token) : ∃ front, front <+: word ∧
    height front = depth word := by
  induction word with
  | nil => exact ⟨[], List.prefix_rfl, rfl⟩
  | cons token word ih =>
      obtain ⟨front, hfront, hheight⟩ := ih
      rcases le_total (weight token + depth word) 0 with hle | hle
      · exact ⟨[], List.nil_prefix, by rw [depth, max_eq_left hle, height_nil]⟩
      · refine ⟨token :: front, List.cons_prefix_cons.mpr ⟨rfl, hfront⟩, ?_⟩
        rw [height_cons, hheight, depth, max_eq_right hle]

/-- The depth of a word is the greatest height among its prefixes. -/
theorem isGreatest_depth (word : List Token) :
    IsGreatest {n | ∃ front, front <+: word ∧ height front = n} (depth word) := by
  refine ⟨exists_height_eq_depth word, ?_⟩
  rintro _ ⟨front, hfront, rfl⟩
  exact height_le_depth hfront

/-! ## Balanced words -/

namespace Balanced

variable {word other inner rest : List Token} {opening closing : Token}

theorem height_eq (h : Balanced word) : height word = 0 := by
  induction h with
  | nil => rfl
  | pair hopening _ hclosing _ ihinner ihrest =>
      simp [weight_opening hopening, weight_closing hclosing, ihinner, ihrest]

/-- No prefix of a balanced word closes more brackets than it opens. -/
theorem height_nonneg (h : Balanced word) {front : List Token} (hfront : front <+: word) :
    0 ≤ height front := by
  induction h generalizing front with
  | nil => rw [List.prefix_nil.mp hfront, height_nil]
  | @pair opening closing inner rest hopening hinner hclosing hrest ihinner ihrest =>
      rcases List.prefix_cons_iff.mp hfront with rfl | ⟨behind, rfl, hbehind⟩
      · exact le_rfl
      rw [height_cons, weight_opening hopening]
      rcases List.prefix_or_prefix_of_prefix hbehind (List.prefix_append inner _) with h | h
      · have := ihinner h
        omega
      obtain ⟨more, rfl⟩ := h
      rw [List.prefix_append_right_inj] at hbehind
      rw [height_append, hinner.height_eq]
      rcases List.prefix_cons_iff.mp hbehind with rfl | ⟨last, rfl, hlast⟩
      · simp
      · have := ihrest hlast
        rw [height_cons, weight_closing hclosing]
        omega

/-- No bracket is closed behind a balanced word inside another one. -/
theorem not_prefix_closed (h : Balanced word) (hclosing : closing.cls = closingClass)
    (hother : Balanced other) : ¬word ++ [closing] <+: other := by
  intro hfront
  have hheight := hother.height_nonneg hfront
  rw [height_append, height_cons, h.height_eq, weight_closing hclosing, height_nil] at hheight
  omega

/-- Of two balanced words that one list starts with, with a closing bracket behind the first, the
second is no longer. -/
theorem prefix_of_closed {ts : List Token} (h : Balanced word)
    (hclosing : closing.cls = closingClass) (hword : word ++ [closing] <+: ts)
    (hother : Balanced other) (hstart : other <+: ts) : other <+: word := by
  rcases List.prefix_or_prefix_of_prefix hstart hword with hle | hle
  · rcases List.prefix_concat_iff.mp hle with rfl | hle
    · exact absurd List.prefix_rfl (h.not_prefix_closed hclosing hother)
    · exact hle
  · exact absurd hle (h.not_prefix_closed hclosing hother)

/-- The bracket that closes another one is unique. -/
theorem eq_of_closed {closing' : Token} {inner' rest' : List Token} (hinner : Balanced inner)
    (hclosing : closing.cls = closingClass) (hinner' : Balanced inner')
    (hclosing' : closing'.cls = closingClass)
    (heq : inner ++ closing :: rest = inner' ++ closing' :: rest') : inner = inner' := by
  have hfront : inner ++ [closing] <+: inner ++ closing :: rest := ⟨rest, by simp⟩
  have hfront' : inner' ++ [closing'] <+: inner ++ closing :: rest := ⟨rest', by simp [heq]⟩
  have hle := hinner'.prefix_of_closed hclosing' hfront' hinner (List.prefix_append _ _)
  have hle' := hinner.prefix_of_closed hclosing hfront hinner'
    ((List.prefix_append _ _).trans hfront')
  exact hle.eq_of_length_le hle'.length_le

/-- Behind a balanced word a balanced word goes on as a balanced word. -/
theorem of_append (h : Balanced word) (happend : Balanced (word ++ rest)) : Balanced rest := by
  induction h with
  | nil => exact happend
  | @pair opening closing inner word hopening hinner hclosing _ _ ih =>
      rw [List.cons_append, List.append_assoc, List.cons_append] at happend
      generalize hwhole : opening :: (inner ++ closing :: (word ++ rest)) = whole at happend
      cases happend with
      | nil => exact absurd hwhole (List.cons_ne_nil _ _)
      | @pair opening' closing' inner' rest' _ hinner' hclosing' hrest' =>
          obtain ⟨-, heq⟩ := List.cons.inj hwhole
          obtain rfl := hinner.eq_of_closed hclosing hinner' hclosing' heq
          obtain ⟨-, rfl⟩ := List.cons.inj (List.append_cancel_left heq)
          exact ih hrest'

theorem depth_pair (hopening : opening.cls = openingClass) (hinner : Balanced inner)
    (hclosing : closing.cls = closingClass) :
    depth (opening :: (inner ++ closing :: rest)) = max (1 + depth inner) (depth rest) := by
  rw [depth, depth_append, depth, hinner.height_eq, weight_opening hopening,
    weight_closing hclosing]
  have h := depth_nonneg inner
  have h' := depth_nonneg rest
  omega

end Balanced

/-! ## The front of a list -/

section

variable {word inner rest : List Token} {opening : Token}

/-- A balanced word is as long as it can be where no balanced word follows it. -/
theorem Stuck.longest (hrest : Stuck rest) (h : Balanced word) :
    LongestBalanced (word ++ rest) word := by
  refine ⟨List.prefix_append _ _, h, fun other hother hbalanced => ?_⟩
  rcases List.prefix_or_prefix_of_prefix hother (List.prefix_append word rest) with hle | hle
  · exact hle.length_le
  · obtain ⟨more, rfl⟩ := hle
    rw [List.prefix_append_right_inj] at hother
    rw [hrest more hother (h.of_append hbalanced), List.append_nil]

theorem LongestBalanced.unique {ts word' : List Token} (h : LongestBalanced ts word)
    (h' : LongestBalanced ts word') : word = word' :=
  (List.prefix_of_prefix_length_le h.front h'.front
    (h'.longest word h.front h.balanced)).eq_of_length_le (h.longest word' h'.front h'.balanced)

/-- Balanced words start with an opening bracket. -/
theorem Stuck.of_head {ts : List Token}
    (h : ∀ token, ts.head? = some token → token.cls ≠ openingClass) : Stuck ts := by
  rintro word ⟨rest, rfl⟩ hbalanced
  cases hbalanced with
  | nil => rfl
  | pair hopening _ _ _ => exact absurd hopening (h _ rfl)

/-- An opening bracket is not closed where no closing one stands behind the longest balanced word
that follows it. -/
theorem Stuck.of_unclosed (hinner : Balanced inner) (hrest : Stuck rest)
    (h : ∀ token, rest.head? = some token → token.cls ≠ closingClass) :
    Stuck (opening :: (inner ++ rest)) := by
  intro word hword hbalanced
  cases hbalanced with
  | nil => rfl
  | @pair opening' closing' inner' rest' _ hinner' hclosing' _ =>
      obtain ⟨-, hword⟩ := List.cons_prefix_cons.mp hword
      have hfront : inner' ++ [closing'] <+: inner ++ rest :=
        List.IsPrefix.trans ⟨rest', by simp⟩ hword
      -- the inner word of the pair is the longest one, so the bracket behind it is the head of
      -- what follows the longest one
      have hle := (hrest.longest hinner).longest inner'
        ((List.prefix_append _ _).trans hfront) hinner'
      have hge := hinner'.prefix_of_closed hclosing' hfront hinner (List.prefix_append _ _)
      obtain rfl := hge.eq_of_length_le hle
      rw [List.prefix_append_right_inj] at hfront
      obtain ⟨more, rfl⟩ := hfront
      exact absurd hclosing' (h _ rfl)

end

end PullParse.Nesting
