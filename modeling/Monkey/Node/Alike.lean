import Monkey.Node.Basic

/-!
# Alike trees

Two trees are alike when they differ at most in the tokens they were read from.  Every
tree has one form without tokens; alike trees are those whose forms agree.
-/

namespace Monkey

/-- A name without its token. -/
def Name.bare (n : Name) : Name := ⟨n.value, none⟩

namespace Node

mutual

/-- A tree without its tokens. -/
def strip : Node → Node
  | program statements _ => program (stripAll statements) none
  | letBinding name value _ => letBinding name.bare (strip value) none
  | returning value _ => returning (strip value) none
  | exprStatement expression _ => exprStatement (strip expression) none
  | block statements _ => block (stripAll statements) none
  | identifier name => identifier name.bare
  | integer value _ => integer value none
  | string value _ => string value none
  | boolean value _ => boolean value none
  | array elements _ => array (stripAll elements) none
  | hash pairs _ => hash (stripPairs pairs) none
  | function parameters body _ => function (parameters.map Name.bare) (strip body) none
  | prefixed operator right _ => prefixed operator (strip right) none
  | binary left operator right _ => binary (strip left) operator (strip right) none
  | conditional condition consequence alternative _ =>
    conditional (strip condition) (strip consequence) (stripOption alternative) none
  | call callee arguments _ => call (strip callee) (stripAll arguments) none
  | index left subscript _ => index (strip left) (strip subscript) none
  | bare family => bare family

/-- Several trees without their tokens. -/
def stripAll : List Node → List Node
  | [] => []
  | n :: rest => strip n :: stripAll rest

/-- Pairs of trees without their tokens. -/
def stripPairs : List (Node × Node) → List (Node × Node)
  | [] => []
  | (key, value) :: rest => (strip key, strip value) :: stripPairs rest

/-- A tree that may be missing, without its tokens. -/
def stripOption : Option Node → Option Node
  | none => none
  | some n => some (strip n)

end

mutual

/-- Whether two trees differ at most in their tokens. -/
def alike : Node → Node → Bool
  | program ss _, program ts _ => alikeAll ss ts
  | letBinding x v _, letBinding y w _ => x.value == y.value && alike v w
  | returning v _, returning w _ => alike v w
  | exprStatement e _, exprStatement f _ => alike e f
  | block ss _, block ts _ => alikeAll ss ts
  | identifier x, identifier y => x.value == y.value
  | integer i _, integer j _ => i == j
  | string s _, string t _ => s == t
  | boolean a _, boolean b _ => a == b
  | array es _, array fs _ => alikeAll es fs
  | hash ps _, hash qs _ => alikePairs ps qs
  | function xs b _, function ys c _ => xs.map Name.value == ys.map Name.value && alike b c
  | prefixed o r _, prefixed p s _ => o == p && alike r s
  | binary l o r _, binary m p s _ => alike l m && o == p && alike r s
  | conditional c t e _, conditional d u f _ => alike c d && alike t u && alikeOption e f
  | call f as _, call g bs _ => alike f g && alikeAll as bs
  | index l i _, index m j _ => alike l m && alike i j
  | bare f, bare g => f == g
  | _, _ => false
termination_by structural n => n

/-- Whether two lists of trees are alike, tree by tree. -/
def alikeAll : List Node → List Node → Bool
  | [], [] => true
  | n :: ns, m :: ms => alike n m && alikeAll ns ms
  | _, _ => false
termination_by structural n => n

/-- Whether two lists of pairs are alike, pair by pair. -/
def alikePairs : List (Node × Node) → List (Node × Node) → Bool
  | [], [] => true
  | (k, v) :: ps, (l, w) :: qs => alike k l && alike v w && alikePairs ps qs
  | _, _ => false
termination_by structural n => n

/-- Whether two trees that may be missing are alike. -/
def alikeOption : Option Node → Option Node → Bool
  | none, none => true
  | some n, some m => alike n m
  | _, _ => false
termination_by structural n => n

end

end Node

end Monkey
