/-
# Reading JSON

The tokens of a document are read by a machine with a stack of open containers
(`Reader.step?`).  Containers may be nested up to `maxDepth` deep.  `Value.ofString?` is the
composition with the cutting into tokens; it accepts exactly one value with nothing behind it
but space.
-/
import FleetAgent.Json.Token

namespace FleetAgent.Json

/-- The greatest number of containers that may be open at once. -/
def maxDepth : Nat := 127

namespace Reader

/-- An open container: what it holds before the value that is being read, the latest first,
and for an object the name that this value will have. -/
inductive Frame where
  | array (done : List Value)
  | object (done : List (String × Value)) (name : String)
deriving Repr, Inhabited

/-- What the next token may be. -/
inductive Expect where
  /-- A value. -/
  | value
  /-- The first item of an array, or its end. -/
  | itemOrEnd
  /-- A member's name, or the end of the object if `orEnd`. -/
  | name (done : List (String × Value)) (orEnd : Bool)
  /-- The colon behind a member's name. -/
  | colon (done : List (String × Value)) (name : String)
  /-- What follows the complete value `v`. -/
  | after (v : Value)
deriving Repr, Inhabited

/-- The machine: the open containers, the innermost first, and what may come next. -/
structure State where
  stack : List Frame
  expect : Expect
deriving Repr, Inhabited

/-- Reads a token where a value may begin. -/
def value? (stack : List Frame) : Token → Option State
  | .string s => some ⟨stack, .after (.string s)⟩
  | .number n => some ⟨stack, .after (.number n)⟩
  | .word v => some ⟨stack, .after v⟩
  | .openArray =>
    if stack.length < maxDepth then some ⟨.array [] :: stack, .itemOrEnd⟩ else none
  | .openObject =>
    if stack.length < maxDepth then some ⟨stack, .name [] true⟩ else none
  | _ => none

/-- Reads a token behind the complete value `v`. -/
def after? (v : Value) : List Frame → Token → Option State
  | .array done :: stack, .comma => some ⟨.array (v :: done) :: stack, .value⟩
  | .array done :: stack, .closeArray => some ⟨stack, .after (.array (v :: done).reverse)⟩
  | .object done name :: stack, .comma => some ⟨stack, .name ((name, v) :: done) false⟩
  | .object done name :: stack, .closeObject =>
    some ⟨stack, .after (.object ((name, v) :: done).reverse)⟩
  | _, _ => none

/-- Reads one token; an error gives nothing. -/
def step? (s : State) (t : Token) : Option State :=
  match s.expect with
  | .value => value? s.stack t
  | .itemOrEnd =>
    match t, s.stack with
    | .closeArray, .array done :: stack => some ⟨stack, .after (.array done.reverse)⟩
    | _, _ => value? s.stack t
  | .name done orEnd =>
    match t with
    | .string name => some ⟨s.stack, .colon done name⟩
    | .closeObject => if orEnd then some ⟨s.stack, .after (.object done.reverse)⟩ else none
    | _ => none
  | .colon done name =>
    match t with
    | .colon => some ⟨.object done name :: s.stack, .value⟩
    | _ => none
  | .after v => after? v s.stack t

/-- The value at the end of the document. -/
def finish? (s : State) : Option Value :=
  match s.expect, s.stack with
  | .after v, [] => some v
  | _, _ => none

end Reader

/-- The value that a list of tokens denotes. -/
def Value.ofTokens? (ts : List Token) : Option Value :=
  match ts.foldlM Reader.step? ⟨[], .value⟩ with
  | some state => Reader.finish? state
  | none => none

/-- The value of a document. -/
def Value.ofChars? (s : List Char) : Option Value :=
  match Token.ofChars? s with
  | some ts => Value.ofTokens? ts
  | none => none

/-- The value of a document. -/
def Value.ofString? (s : String) : Option Value :=
  Value.ofChars? s.toList

end FleetAgent.Json
