import DocWeave.Fault
import DocWeave.Tag.Kind
import DocWeave.Tag.Token
import DocWeave.Text.Block

/-!
Replacing the tags of a fragment.

The result of a tag is never read again. The first tag that has no meaning stops the replacement, but only
after the whole fragment has been split into tokens.
-/

namespace DocWeave.Tag

open DocWeave.Text DocWeave.Extension

/-- The classes that tags can refer to. -/
structure Scope where
  symbols : Symbols
  /-- Whether a class of this name is exported. -/
  exports : String → Bool

/-- The place where a fragment is used. -/
structure Site where
  origin : Origin
  /-- The byte position of the fragment in the documentation. -/
  offset : Nat
  /-- The class that a tag refers to if it names none. -/
  defaultClass : Option String

/-- The place of a tag in the documentation. There is none if the documentation is too short for it. -/
def Site.span? (site : Site) (span : Span) : Option Span :=
  let moved := span.shift site.offset
  if moved.stop ≤ byteLength site.origin.doc.toList then some moved else none

def Site.unresolved (site : Site) (name tag : String) (cause : Unresolved) (span : Span) : Fault :=
  .unresolved name tag cause site.origin (site.span? span)

/-- The class that a tag refers to. -/
def Scope.target (scope : Scope) (site : Site) (kind : Kind) (named : Option String) (span : Span) :
    Except Fault String :=
  match named, site.defaultClass with
  | some name, _ =>
    if scope.exports name then .ok name
    else .error (site.unresolved name kind.label .notExported span)
  | none, some name => .ok name
  | none, none => .error (site.unresolved "(default class)" kind.label .noDefaultClass span)

/-- The text that a tag stands for. -/
def Scope.expandTag (scope : Scope) (site : Site) (name inner : List Char) (span : Span) :
    Except Fault String :=
  match Kind.ofWord? (String.ofList name) with
  | none => .error (.unknownTag (String.ofList name) site.origin (site.span? span))
  | some kind =>
    let args := (arguments inner).map String.ofList
    let shown := ", ".intercalate args
    if args.length < kind.least ∨ kind.most < args.length then
      .error (site.unresolved shown kind.label (.arity kind.least kind.most args.length) span)
    else
      match args.findIdx? (· = "") with
      | some index => .error (site.unresolved shown kind.label (.emptyArgument (index + 1)) span)
      | none =>
        (scope.target site kind args[kind.least]? span).map fun target =>
          kind.expansion (scope.symbols.forClass target) (args.head?.getD "")

/-- The text that a token stands for. -/
def Scope.expandToken (scope : Scope) (site : Site) : Token → Except Fault (List Char)
  | .char c => .ok [c]
  | .dollar => .ok ['$']
  | .tag name inner span => (scope.expandTag site name inner span).map String.toList

/-- The text that tokens stand for. -/
def Scope.expandTokens (scope : Scope) (site : Site) : List Token → Except Fault (List Char)
  | [] => .ok []
  | token :: rest =>
    match scope.expandToken site token with
    | .error fault => .error fault
    | .ok text => (scope.expandTokens site rest).map (text ++ ·)

/-- Replace every tag of a fragment. -/
def Scope.expand (scope : Scope) (site : Site) (fragment : String) : Except Fault String :=
  match tokens fragment.toList with
  | .error unclosed =>
    let name := String.ofList unclosed.name
    .error (site.unresolved name ("$" ++ name) .unclosed unclosed.span)
  | .ok found => (scope.expandTokens site found).map String.ofList

/-- Replace every tag of a fragment, cut its blank edges and move it to a column. -/
def Scope.place (scope : Scope) (site : Site) (tabWidth columns : Nat) (fragment : String) :
    Except Fault String :=
  (scope.expand site fragment).map (onString fun cs => reindent tabWidth columns (trimBlankEdges cs))

end DocWeave.Tag
