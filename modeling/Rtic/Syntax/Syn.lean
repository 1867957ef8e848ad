import Rtic.Library.TokenParser
import Rtic.Syntax.Ast
namespace Rtic.Syntax.Syn
open TokenParser

-- What the parsers read of syn's trees. Types and expressions that nothing looks into are their tokens.
inductive Delimiter where
  | parenthesis
  | brace
  | bracket
  deriving DecidableEq, Repr

-- A punctuation of several characters is as many tokens, joined.
inductive Token where
  | ident (name : Ident)
  | punct (c : Char) (joint : Bool)
  | literal (text : String)
  | group (delimiter : Delimiter) (stream : List Token)
  deriving Repr

inductive PathArguments where
  | none
  | angleBracketed (args : List Token)
  | parenthesized (args : List Token)
  deriving Repr

structure PathSegment where
  ident : Ident
  arguments : PathArguments
  deriving Repr

structure Path where
  leadingColon : Bool
  segments : List PathSegment
  deriving Repr

inductive AttrStyle where
  | outer
  | inner
  deriving DecidableEq, Repr

-- `args` is what stands in the parentheses, where there are any.
structure Attribute where
  style : AttrStyle
  path : Path
  args : Option (List Token)
  deriving Repr

inductive Type_ where
  | array (tokens : List Token)
  | path (qself : Bool) (path : Path)
  | ptr (tokens : List Token)
  | tuple (elems : List Type_)
  | never
  | other (tokens : List Token)
  deriving Repr

abbrev Expr := List Token

structure ExprPath where
  attrs : List Attribute
  path : Path
  deriving Repr

inductive Visibility where
  | inherited
  | restricted (tokens : List Token)
  deriving Repr

abbrev Pat := List Token
abbrev Stmt := List Token

structure PatType where
  pat : Pat
  ty : Type_
  deriving Repr

inductive FnArg where
  | receiver (tokens : List Token)
  | typed (arg : PatType)
  deriving Repr

inductive ReturnType where
  | default
  | type_ (ty : Type_)
  deriving Repr

structure Abi where
  name : Option String
  deriving Repr

structure Generics where
  params : List (List Token)
  whereClause : Option (List Token)
  deriving Repr

structure Signature where
  constness : Bool
  asyncness : Bool
  unsafety : Bool
  abi : Option Abi
  ident : Ident
  generics : Generics
  inputs : List FnArg
  variadic : Bool
  output : ReturnType
  deriving Repr

structure ItemFn where
  attrs : List Attribute
  vis : Visibility
  sig : Signature
  stmts : List Stmt
  deriving Repr

structure ForeignItemFn where
  attrs : List Attribute
  vis : Visibility
  sig : Signature
  deriving Repr

structure Field where
  attrs : List Attribute
  vis : Visibility
  ident : Ident
  ty : Type_
  deriving Repr

inductive Fields where
  | named (fields : List Field)
  | unnamed (tokens : List Token)
  | unit
  deriving Repr

structure ItemStruct where
  attrs : List Attribute
  vis : Visibility
  ident : Ident
  fields : Fields
  deriving Repr

inductive ForeignItem where
  | fn (item : ForeignItemFn)
  | other (tokens : List Token)
  deriving Repr

structure ItemForeignMod where
  abi : Abi
  items : List ForeignItem
  deriving Repr

abbrev ItemUse := List Token

inductive Item where
  | fn (item : ItemFn)
  | struct_ (item : ItemStruct)
  | foreignMod (mod : ItemForeignMod)
  | use_ (item : ItemUse)
  | other (tokens : List Token)
  deriving Repr

inductive Span where
  | ident (name : Ident)
  | path (path : Path)
  | type_ (ty : Type_)
  | tokens (ts : List Token)
  | struct_ (item : ItemStruct)
  | externToken (abi : Abi)
  deriving Repr

structure ParseError where
  span : Span
  message : String
  deriving Repr

abbrev ParseStream (A : Type) := Parser Token ParseError A

-- The parsers of syn itself, each of which reads something.
structure Parsers where
  exprPath : ParseStream ExprPath
  type_ : ParseStream Type_
  expr : ParseStream Expr
  exprPath_consumes : Consumes exprPath
  type_consumes : Consumes type_
  expr_consumes : Consumes expr

def isPunct (c : Char) : Token → Bool
  | .punct c' _ => c' == c
  | _ => false

-- input.peek(Token![c]), and input.parse of it
def peekPunct (c : Char) : ParseStream Bool := peek (isPunct c)
def punct (c : Char) : ParseStream Token :=
  next (isPunct c) fun ts => ⟨.tokens ts,"expected "++c.toString⟩

def bracketed : ParseStream (List Token) := fun ts =>
  match ts with
  | .group .bracket stream::rest => .ok (stream,rest)
  | _ => .error ⟨.tokens ts,"expected square brackets"⟩

-- A path that is an identifier, which is what a PathSegment makes of one.
def Path.ofIdent (ident : Ident) : Path := ⟨false,[⟨ident,.none⟩]⟩

section
variable {A : Type} {c : Char} {ts rest : List Token}

theorem isPunct_iff {t : Token} : isPunct c t = true ↔ ∃ joint, t = .punct c joint := by
  cases t <;> simp [isPunct]

theorem headed_iff : ts.head?.any (isPunct c) = true ↔ ∃ joint rest, ts = .punct c joint::rest := by
  cases ts with
  | nil => simp
  | cons t ts =>
    rw [List.head?_cons,Option.any_some,isPunct_iff]
    simp

theorem punct_bind_ok {a : A} {x : ParseStream A} : (punct c >>= fun _ => x) ts = .ok (a,rest) ↔
    ∃ joint middle, ts = .punct c joint::middle ∧ x middle = .ok (a,rest) := by
  rw [bind_ok]
  simp only [punct,next_ok,isPunct_iff]
  refine ⟨?_,?_⟩
  · rintro ⟨_,middle,⟨same,joint,rfl⟩,result⟩
    exact ⟨joint,middle,same,result⟩
  · rintro ⟨joint,middle,same,result⟩
    exact ⟨_,middle,⟨same,joint,rfl⟩,result⟩

end
end Rtic.Syntax.Syn
