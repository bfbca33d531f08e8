import PullParse.Arithmetic.Program
import Mathlib.Tactic

/-!
# Sentences of arithmetic

The language of the evaluator, said without it. A sum is a chain of products with
`+` and `-` between them, a product a chain of atoms with `*` and `/` between
them, and an atom a number or a sum in parentheses. A chain is evaluated from
left to right; it has no value if a division by zero occurs anywhere in it.

Expression trees are written out as sentences with the parentheses that their
shape requires, and no others.
-/

namespace PullParse.Arithmetic

/-- The tokens of arithmetic. -/
inductive Lexeme where
  | number (n : Int)
  | operator (op : Operator)
  | opening
  | closing
  deriving DecidableEq

namespace Lexeme

/-- The class of a token, which is also the payload of every token but a number. -/
def symbol : Lexeme → String
  | .number _ => numberClass
  | .operator op => op.symbol
  | .opening => "("
  | .closing => ")"

def token : Lexeme → Token
  | .number n => numberToken n
  | x => symbolToken x.symbol

end Lexeme

/-- The levels of the grammar, the loosest first. -/
inductive Level where
  | sum
  | product
  | atom
  deriving DecidableEq

/-- The level of the operands between the operators of a level. -/
def Level.operand : Level → Level
  | .sum => .product
  | .product => .atom
  | .atom => .atom

namespace Operator

def level : Operator → Level
  | .plus | .minus => .sum
  | .times | .divide => .product

/-- What an operator computes. Division rounds down, and has no value by zero. -/
def denote : Operator → Int → Int → Option Int
  | .plus, a, b => some (a + b)
  | .minus, a, b => some (a - b)
  | .times, a, b => some (a * b)
  | .divide, a, b => if b = 0 then none else some (a.fdiv b)

theorem level_ne_atom (op : Operator) : op.level ≠ .atom := by
  cases op <;> decide

theorem eq_divide_of_denote {op : Operator} {a b : Int} (h : op.denote a b = none) :
    op = .divide := by
  cases op <;> simp [denote] at h ⊢

end Operator

/-- A link of a chain: an operator, the words of the operand to its right, and their value. -/
structure Link where
  op : Operator
  words : List Lexeme
  value : Option Int

namespace Link

def lexemes (link : Link) : List Lexeme := .operator link.op :: link.words

/-- The value of a chain so far, and of one more link. -/
def apply (acc : Option Int) (link : Link) : Option Int :=
  acc.bind fun a => link.value.bind fun b => link.op.denote a b

end Link

/-- The value of a chain, from left to right. -/
def chainValue (first : Option Int) (links : List Link) : Option Int := links.foldl Link.apply first

@[simp] theorem chainValue_none (links : List Link) : chainValue none links = none := by
  induction links with
  | nil => rfl
  | cons link links ih => exact ih

/-- `Sentence level words value`: the words are a phrase of the level, and this is their value. -/
inductive Sentence : Level → List Lexeme → Option Int → Prop
  | number (n : Int) : Sentence .atom [.number n] (some n)
  | group {words : List Lexeme} {value : Option Int} (h : Sentence .sum words value) :
      Sentence .atom (.opening :: (words ++ [.closing])) value
  | chain {level : Level} {words : List Lexeme} {value : Option Int} (links : List Link)
      (hlevel : level ≠ .atom) (hfirst : Sentence level.operand words value)
      (hops : ∀ link ∈ links, link.op.level = level)
      (hlinks : ∀ link ∈ links, Sentence level.operand link.words link.value) :
      Sentence level (words ++ links.flatMap Link.lexemes) (chainValue value links)

namespace Sentence

/-- A phrase without operators of its level is a chain of one operand. -/
theorem ofOperand {level : Level} {words : List Lexeme} {value : Option Int}
    (hlevel : level ≠ .atom) (h : Sentence level.operand words value) :
    Sentence level words value := by
  have hchain := Sentence.chain [] hlevel h (by simp) (by simp)
  simpa [chainValue] using hchain

/-- A chain goes on with one more link. -/
theorem link {op : Operator} {words words' : List Lexeme} {value value' : Option Int}
    (h : Sentence op.level words value) (h' : Sentence op.level.operand words' value') :
    Sentence op.level (words ++ .operator op :: words')
      (Link.apply value ⟨op, words', value'⟩) := by
  generalize hl : op.level = level at h h'
  cases h with
  | number n => exact absurd hl op.level_ne_atom
  | group _ => exact absurd hl op.level_ne_atom
  | @chain _ first v links hlevel hfirst hops hlinks =>
      have hchain := Sentence.chain (links ++ [⟨op, words', value'⟩]) hlevel hfirst
        (by
          intro x hx
          rcases List.mem_append.mp hx with hx | hx
          · exact hops x hx
          · rw [List.mem_singleton.mp hx]
            exact hl)
        (by
          intro x hx
          rcases List.mem_append.mp hx with hx | hx
          · exact hlinks x hx
          · rw [List.mem_singleton.mp hx]
            exact h')
      simpa [chainValue, Link.lexemes, List.foldl_append] using hchain

end Sentence

/-! ## Expression trees -/

inductive Tree where
  | number (n : Int)
  | node (op : Operator) (left right : Tree)

namespace Tree

def value : Tree → Option Int
  | .number n => some n
  | .node op left right => left.value.bind fun a => right.value.bind fun b => op.denote a b

/-- Whether an operator may stand at a level without parentheses around it. -/
def fits (op : Operator) : Level → Bool
  | .sum => true
  | .product => op.level == .product
  | .atom => false

/-- The words of a tree at a level. The left operand stands at the level of the operator itself,
since chains associate to the left; the right one stands at the level below. -/
def render : Level → Tree → List Lexeme
  | _, .number n => [.number n]
  | level, .node op left right =>
    let words := left.render op.level ++ .operator op :: right.render op.level.operand
    if fits op level then words else .opening :: (words ++ [.closing])

/-- A phrase of an operator's level stands wherever the operator fits, as it is. -/
theorem sentence_of_fits {op : Operator} {level : Level} {words : List Lexeme}
    {value : Option Int} (h : Sentence op.level words value) (hfits : fits op level = true) :
    Sentence level words value := by
  cases level with
  | sum =>
      cases hop : op.level with
      | sum => exact hop ▸ h
      | product =>
          rw [hop] at h
          exact .ofOperand (by decide) h
      | atom => exact absurd hop op.level_ne_atom
  | product =>
      have hop : op.level = .product := by simpa [fits] using hfits
      exact hop ▸ h
  | atom => simp [fits] at hfits

/-- A number stands at every level. -/
theorem sentence_number (n : Int) (level : Level) : Sentence level [.number n] (some n) := by
  have hproduct : Sentence .product [.number n] (some n) := .ofOperand (by decide) (.number n)
  cases level with
  | sum => exact .ofOperand (by decide) hproduct
  | product => exact hproduct
  | atom => exact .number n

/-- A phrase in parentheses stands at every level. -/
theorem sentence_group {words : List Lexeme} {value : Option Int}
    (h : Sentence .sum words value) (level : Level) :
    Sentence level (.opening :: (words ++ [.closing])) value := by
  have hproduct : Sentence .product (.opening :: (words ++ [.closing])) value :=
    .ofOperand (by decide) (.group h)
  cases level with
  | sum => exact .ofOperand (by decide) hproduct
  | product => exact hproduct
  | atom => exact .group h

/-- A tree is written out as a sentence with the tree's own value. -/
theorem sentence_render (tree : Tree) (level : Level) :
    Sentence level (tree.render level) tree.value := by
  induction tree generalizing level with
  | number n => exact sentence_number n level
  | node op left right ihl ihr =>
      have hchain := Sentence.link (ihl op.level) (ihr op.level.operand)
      rw [render]
      by_cases hfits : fits op level = true
      · rw [if_pos hfits]
        exact sentence_of_fits hchain hfits
      · rw [if_neg hfits]
        exact sentence_group (sentence_of_fits hchain rfl) level

end Tree

end PullParse.Arithmetic
