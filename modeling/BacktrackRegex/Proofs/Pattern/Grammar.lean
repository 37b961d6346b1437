import BacktrackRegex.Pattern.Parser

/-!
# The grammar of patterns

The grammar is written down without regard to how a pattern is read.  Each of its notions is a
relation `s … t`: the text `s` begins with a piece of the kind, and goes on with `t` after it.  A
piece may end in more than one place, so what is to come after it is said where it is used.

* `Grammar.BraceForm`, `Grammar.Quantified` — quantifiers;
* `Grammar.Members`, `Grammar.Leaf` — characters that are matched, among them classes;
* `Grammar.Alternation`, `Grammar.Sequence`, `Grammar.Atom` — regexes inside so many groups;
* `Grammar.Derives` — whole patterns.

The grammar does not number capturing groups: each of them has the number zero, as it has in
`Regex.anonymous`.
-/

set_option autoImplicit false

namespace BacktrackRegex

/-! ## Regexes without numbers -/

mutual

/-- The regex with all its capturing groups numbered zero. -/
def Regex.anonymous : Regex → Regex
  | .seq items => .seq (itemsAnonymous items)
  | .alt branches => .alt (branchesAnonymous branches)
  | .group id body => .group (id.map fun _ => 0) body.anonymous
  | .leaf set => .leaf set

/-- The items of a sequence with all their capturing groups numbered zero. -/
def itemsAnonymous : List (Regex × Quantifier) → List (Regex × Quantifier)
  | [] => []
  | (r, q) :: items => (r.anonymous, q) :: itemsAnonymous items

/-- The branches of an alternation with all their capturing groups numbered zero. -/
def branchesAnonymous : List Regex → List Regex
  | [] => []
  | r :: branches => r.anonymous :: branchesAnonymous branches

end

/-- An upper bound is not below the lower one. -/
def Quantifier.Ordered (q : Quantifier) : Prop := ∀ max, q.max = some max → q.min ≤ max

namespace Grammar

/-! ## Quantifiers -/

/-- A run of digits, at least one, that denotes `n`. -/
inductive Number : List Char → Nat → List Char → Prop
  | intro {digits : List Char} (hSome : digits ≠ []) (hDigits : ∀ c ∈ digits, c.isDigit = true)
    (t : List Char) : Number (digits ++ t) (decimalValue digits) t

/-- What comes after the first number inside braces, up to and with the closing brace. -/
inductive UpperBound (min : Nat) : List Char → Option Nat → List Char → Prop
  | same (t : List Char) : UpperBound min ('\x7d' :: t) (some min) t
  | absent (t : List Char) : UpperBound min (',' :: '\x7d' :: t) none t
  | given {s t : List Char} {n : Nat} (h : Number s n ('\x7d' :: t)) :
    UpperBound min (',' :: s) (some n) t

/-- A complete brace form: one number, a number and a comma, or two numbers with a comma between.
Nothing is said about the order of the numbers. -/
inductive BraceForm : List Char → Nat → Option Nat → List Char → Prop
  | intro {s t u : List Char} {min : Nat} {max : Option Nat} (hMin : Number s min t)
    (hMax : UpperBound min t max u) : BraceForm ('\x7b' :: s) min max u

/-- The text begins with a complete brace form. -/
def OpensBraces (s : List Char) : Prop := ∃ min max t, BraceForm s min max t

/-- A quantifier that is written out; bounds in braces have to be in order. -/
inductive Quantified : List Char → Quantifier → List Char → Prop
  | star (t : List Char) : Quantified ('*' :: t) .zeroOrMore t
  | plus (t : List Char) : Quantified ('+' :: t) .oneOrMore t
  | mark (t : List Char) : Quantified ('?' :: t) .zeroOrOne t
  | braces {s t : List Char} {q : Quantifier}
    (h : BraceForm s q.min.toNat (q.max.map UInt32.toNat) t) (hOrder : q.Ordered) :
    Quantified s q t

/-! ## Characters -/

/-- The members of a class, repetitions included, up to and with the closing bracket. -/
inductive Members : List Char → List Char → List Char → Prop
  | close (t : List Char) : Members (']' :: t) [] t
  | escaped {s members t : List Char} (c : Char) (h : Members s members t) :
    Members ('\\' :: c :: s) (c :: members) t
  | plain {s members t : List Char} {c : Char} (hPlain : c ∉ ['^', ']', '\\'])
    (h : Members s members t) : Members (c :: s) (c :: members) t

/-- A piece, inside `depth` groups, that matches a single character.  A member of a class keeps the
place where it first comes up. -/
inductive Leaf (depth : Nat) : List Char → CharSet → List Char → Prop
  | dot (t : List Char) : Leaf depth ('.' :: t) .any t
  | escaped (c : Char) (t : List Char) : Leaf depth ('\\' :: c :: t) (.only c) t
  | plain {c : Char} (hPlain : c ∉ ['*', '+', '?', '[', ']', '(', '|', '\\', '.'])
    (hClose : c = ')' → depth = 0) (t : List Char) : Leaf depth (c :: t) (.only c) t
  | members {s members t : List Char} (h : Members s members t) :
    Leaf depth ('[' :: s) (.members false members.eraseDups) t
  | others {s members t : List Char} (h : Members s members t) :
    Leaf depth ('[' :: '^' :: s) (.members true members.eraseDups) t

/-! ## Regexes -/

mutual

/-- An alternation inside `depth` groups: a sequence that stands for itself, or several of them. -/
inductive Alternation : Nat → List Char → Regex → List Char → Prop
  | single {depth : Nat} {s t : List Char} {items : List (Regex × Quantifier)}
    (h : Sequence depth s items t) : Alternation depth s (.seq items) t
  | several {depth : Nat} {s t u : List Char} {items : List (Regex × Quantifier)} {branch : Regex}
    {branches : List Regex} (hFirst : Sequence depth s items t)
    (hOthers : Branches depth t (branch :: branches) u) :
    Alternation depth s (.alt (.seq items :: branch :: branches)) u

/-- Sequences with a bar before each. -/
inductive Branches : Nat → List Char → List Regex → List Char → Prop
  | nil (depth : Nat) (t : List Char) : Branches depth t [] t
  | cons {depth : Nat} {s t u : List Char} {items : List (Regex × Quantifier)}
    {branches : List Regex} (hFirst : Sequence depth s items t)
    (hOthers : Branches depth t branches u) :
    Branches depth ('|' :: s) (.seq items :: branches) u

/-- Atoms, each with a quantifier or without one.  A complete brace form after an atom is always
its quantifier. -/
inductive Sequence : Nat → List Char → List (Regex × Quantifier) → List Char → Prop
  | nil (depth : Nat) (t : List Char) : Sequence depth t [] t
  | once {depth : Nat} {s t u : List Char} {r : Regex} {items : List (Regex × Quantifier)}
    (hAtom : Atom depth s r t) (hBare : ¬ OpensBraces t) (hItems : Sequence depth t items u) :
    Sequence depth s ((r, .once) :: items) u
  | quantified {depth : Nat} {s t u v : List Char} {r : Regex} {q : Quantifier}
    {items : List (Regex × Quantifier)} (hAtom : Atom depth s r t) (hQuantifier : Quantified t q u)
    (hItems : Sequence depth u items v) : Sequence depth s ((r, q) :: items) v

/-- A single character, or a group, which captures unless `?:` follows its parenthesis. -/
inductive Atom : Nat → List Char → Regex → List Char → Prop
  | leaf {depth : Nat} {s t : List Char} {set : CharSet} (h : Leaf depth s set t) :
    Atom depth s (.leaf set) t
  | capturing {depth : Nat} {s t : List Char} {body : Regex} (hDepth : depth < maxNesting)
    (hBody : Alternation (depth + 1) s body (')' :: t)) :
    Atom depth ('(' :: s) (.group (some 0) body) t
  | bare {depth : Nat} {s t : List Char} {body : Regex} (hDepth : depth < maxNesting)
    (hBody : Alternation (depth + 1) s body (')' :: t)) :
    Atom depth ('(' :: '?' :: ':' :: s) (.group none body) t

end

/-- The whole pattern stands for the regex, which has no numbers. -/
def Derives (pattern : List Char) (r : Regex) : Prop := Alternation 0 pattern r []

end Grammar

end BacktrackRegex
