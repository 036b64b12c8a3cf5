import Monkey.Parser.State

/-!
# Grammar

The rules of the language, by operator precedence: an operand is read first and then
extended by operators, calls and indexes while they bind tighter than the context.  Each
rule is entered with its first token current and leaves its last token current.

The rules call one another with a bound on the depth that falls at every call;
`Parser.run` starts with a bound that no token stream reaches.
-/

namespace Monkey.Parser

/-- How tightly a token binds what stands before it, and the bounds that contexts set. -/
abbrev Precedence := Nat

namespace Precedence

/-- Every operator binds tighter. -/
def lowest : Precedence := 1

/-- Comparison for equality. -/
def equality : Precedence := 2

/-- Comparison by order. -/
def order : Precedence := 3

/-- Sums and differences. -/
def sum : Precedence := 4

/-- Products and quotients. -/
def product : Precedence := 5

/-- The operand of a prefix operator. -/
def prefixed : Precedence := 6

/-- Calls. -/
def call : Precedence := 7

/-- Indexes. -/
def index : Precedence := 8

end Precedence

/-- How tightly a token of a kind binds what stands before it. -/
def precedence : Kind → Precedence
  | .eq | .notEq => Precedence.equality
  | .lt | .gt => Precedence.order
  | .plus | .minus => Precedence.sum
  | .slash | .asterisk => Precedence.product
  | .lparen => Precedence.call
  | .lbracket => Precedence.index
  | _ => Precedence.lowest

/-- The greatest value of an integer literal, that of a 64-bit word with a sign. -/
def greatestInteger : Int := 9223372036854775807

/-- The current token as a name. -/
def currentName : Action Name := do
  let token ← current
  pure ⟨token.literal, some token⟩

@[simp] theorem currentName_bind_run {α : Type} (f : Name → Action α) (s : State) :
    (currentName >>= f) s = f ⟨s.current.literal, some s.current⟩ s := rfl

/-- The integer literal that a token spells. -/
def integerLiteral (token : Token) : Action Node :=
  match Numeral.read token.literal with
  | .error refusal => throw (.unreadable refusal)
  | .ok value =>
    if greatestInteger < value then fail .outOfRange token
    else pure (.integer value (some token))

/-- Parameters after a comma or at the closing parenthesis. -/
def moreParameters : Nat → Action (List Name)
  | 0 => throw .dropped
  | depth + 1 => do
    if (← upcoming).kind = .comma then
      advance
      expect .ident
      let name ← currentName
      let rest ← moreParameters depth
      pure (name :: rest)
    else
      expect .rparen
      pure []

/-- The parameters of a function, from the opening parenthesis to the closing one. -/
def parameters (depth : Nat) : Action (List Name) := do
  if (← upcoming).kind = .rparen then
    advance
    pure []
  else
    expect .ident
    let name ← currentName
    let rest ← moreParameters depth
    pure (name :: rest)

mutual

/-- The statements up to the end of the input, or in a block up to the closing brace.  A
    statement that is given up is left out, and the next is tried one token later. -/
def statements (inBlock : Bool) : Nat → Action (List Node)
  | 0 => throw .dropped
  | depth + 1 => do
    let token ← current
    if token.kind = .eof ∨ (inBlock ∧ token.kind = .rbrace) then
      pure []
    else
      let statement? ← attempt (statement depth)
      advance
      let rest ← statements inBlock depth
      pure (statement?.toList ++ rest)

/-- A statement. -/
def statement : Nat → Action Node
  | 0 => throw .dropped
  | depth + 1 => do
    match (← current).kind with
    | .letKeyword =>
      let token ← begin .letStatement
      expect .ident
      let name ← currentName
      expect .assign
      advance
      let value ← expression depth Precedence.lowest
      skip .semicolon
      pure (.letBinding name value (some token))
    | .returnKeyword =>
      let token ← begin .returnStatement
      advance
      let value ← expression depth Precedence.lowest
      skip .semicolon
      pure (.returning value (some token))
    | _ =>
      let token ← begin .exprStatement
      let value ← expression depth Precedence.lowest
      skip .semicolon
      pure (.exprStatement value (some token))

/-- A block, from the opening brace to the closing one or the end of the input. -/
def block : Nat → Action Node
  | 0 => throw .dropped
  | depth + 1 => do
    let token ← begin .block
    advance
    let body ← statements true depth
    pure (.block body (some token))

/-- An expression whose operators bind tighter than a bound. -/
def expression : Nat → Precedence → Action Node
  | 0, _ => throw .dropped
  | depth + 1, bound => do
    let left ← operand depth
    climb depth bound left

/-- Extends an expression while the next token binds it tighter than a bound. -/
def climb : Nat → Precedence → Node → Action Node
  | 0, _, _ => throw .dropped
  | depth + 1, bound, left => do
    if bound < precedence (← upcoming).kind then
      advance
      let extended ← extend depth left
      climb depth bound extended
    else
      pure left

/-- An expression up to its first operator. -/
def operand : Nat → Action Node
  | 0 => throw .dropped
  | depth + 1 => do
    let token ← current
    match token.kind with
    | .ident => pure (.identifier ⟨token.literal, some token⟩)
    | .int => integerLiteral token
    | .string => pure (.string token.literal (some token))
    | .trueKeyword => pure (.boolean true (some token))
    | .falseKeyword => pure (.boolean false (some token))
    | .bang | .minus =>
      let token ← begin .prefixed
      advance
      let right ← expression depth Precedence.prefixed
      pure (.prefixed token.literal right (some token))
    | .lparen =>
      advance
      let inner ← expression depth Precedence.lowest
      expect .rparen
      pure inner
    | .ifKeyword =>
      let token ← begin .conditional
      expect .lparen
      advance
      let condition ← expression depth Precedence.lowest
      expect .rparen
      expect .lbrace
      let consequence ← block depth
      if (← upcoming).kind = .elseKeyword then
        advance
        expect .lbrace
        let alternative ← block depth
        pure (.conditional condition consequence (some alternative) (some token))
      else
        pure (.conditional condition consequence none (some token))
    | .function =>
      let token ← begin .function
      expect .lparen
      let names ← parameters depth
      expect .lbrace
      let body ← block depth
      pure (.function names body (some token))
    | .lbracket =>
      let elements ← items .rbracket depth
      pure (.array elements (some token))
    | .lbrace =>
      let token ← begin .hash
      let entries ← pairs depth
      pure (.hash entries (some token))
    | _ => fail .noExpression token

/-- The expression that the current operator, parenthesis or bracket makes of the one
    before it. -/
def extend : Nat → Node → Action Node
  | 0, _ => throw .dropped
  | depth + 1, left => do
    match (← current).kind with
    | .lparen =>
      let token ← begin .call
      let arguments ← items .rparen depth
      pure (.call left arguments (some token))
    | .lbracket =>
      let token ← begin .index
      advance
      let subscript ← expression depth Precedence.lowest
      expect .rbracket
      pure (.index left subscript (some token))
    | kind =>
      let token ← begin .binary
      advance
      let right ← expression depth (precedence kind)
      pure (.binary left token.literal right (some token))

/-- Expressions between the current token and a closing one, separated by commas. -/
def items (closing : Kind) : Nat → Action (List Node)
  | 0 => throw .dropped
  | depth + 1 => do
    if (← upcoming).kind = closing then
      advance
      pure []
    else
      advance
      let item ← expression depth Precedence.lowest
      let rest ← moreItems closing depth
      pure (item :: rest)

/-- Expressions after a comma or at the closing token. -/
def moreItems (closing : Kind) : Nat → Action (List Node)
  | 0 => throw .dropped
  | depth + 1 => do
    if (← upcoming).kind = .comma then
      advance
      advance
      let item ← expression depth Precedence.lowest
      let rest ← moreItems closing depth
      pure (item :: rest)
    else
      expect closing
      pure []

/-- The pairs of a hash literal up to the closing brace; a comma may follow the last. -/
def pairs : Nat → Action (List (Node × Node))
  | 0 => throw .dropped
  | depth + 1 => do
    if (← upcoming).kind = .rbrace then
      advance
      pure []
    else
      advance
      let key ← expression depth Precedence.lowest
      expect .colon
      advance
      let value ← expression depth Precedence.lowest
      if (← upcoming).kind ≠ .rbrace then
        expect .comma
      let rest ← pairs depth
      pure ((key, value) :: rest)

end

end Monkey.Parser
