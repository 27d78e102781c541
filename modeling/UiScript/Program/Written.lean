/-
Programs as debugging output and as JSON. Both show every field of the
tree, a constructor by its name: in JSON as an object with that name as its
only key.
-/
import UiScript.Json
import UiScript.Program.Basic
import UiScript.Text.Shape

namespace UiScript

open Text

-- ================================================================= debugging

/-- A number as debugging output shows it. -/
def Number.shape : Number → Shape
  | .int n => .apply "Int" [.text (toString n)]
  | .float x => .apply "Float" [.text (Decimal.Layout.debugging.write x)]

/-- A literal as debugging output shows it. -/
def Literal.shape : Literal → Shape
  | .string value => .apply "String" [.string value]
  | .number value => .apply "Number" [value.shape]
  | .boolean value => .apply "Boolean" [.text (toString value)]
  | .nil => .text "Nil"
  | .symbol name => .apply "Symbol" [.string name]

mutual
/-- An expression as debugging output shows it. -/
def Expr.shape : Expr → Shape
  | .call ⟨receiver, method, args, block, span⟩ =>
    .apply "MethodCall" [.record "MethodCall" [
      ("receiver", Shape.option (match receiver with
        | some r => some r.shape
        | none => none)),
      ("method", .string method),
      ("args", .list (argumentShapes args)),
      ("block", Shape.option (match block with
        | some ⟨statements, s⟩ => some (.record "Block" [
          ("statements", .list (statementShapes statements)), ("span", .text s.text)])
        | none => none)),
      ("span", .text span.text)]]
  | .literal value span =>
    .apply "Literal" [.record "Literal" [("kind", value.shape), ("span", .text span.text)]]
  | .sequence ⟨statements, span⟩ =>
    .apply "Block" [.record "Block" [
      ("statements", .list (statementShapes statements)), ("span", .text span.text)]]

/-- Arguments as debugging output shows them. -/
def argumentShapes : List Argument → List Shape
  | [] => []
  | .positional value :: args => .apply "Positional" [value.shape] :: argumentShapes args
  | .named key value span :: args =>
    .record "Named" [("key", .string key), ("value", value.shape), ("span", .text span.text)]
      :: argumentShapes args

/-- Statements as debugging output shows them. -/
def statementShapes : List Expr → List Shape
  | [] => []
  | statement :: statements => statement.shape :: statementShapes statements
end

-- ====================================================================== JSON

/-- A span in JSON. -/
def Span.json (s : Span) : Json := .object [("start", .int s.start), ("end", .int s.stop)]

/-- A number of a program in JSON. -/
def Number.taggedJson : Number → Json
  | .int n => .object [("Int", .int n)]
  | .float x => .object [("Float", .float x)]

/-- A literal in JSON. -/
def Literal.json : Literal → Json
  | .string value => .object [("String", .string value)]
  | .number value => .object [("Number", value.taggedJson)]
  | .boolean value => .object [("Boolean", .bool value)]
  | .nil => .string "Nil"
  | .symbol name => .object [("Symbol", .string name)]

mutual
/-- An expression in JSON. -/
def Expr.json : Expr → Json
  | .call ⟨receiver, method, args, block, span⟩ =>
    .object [("MethodCall", .object [
      ("receiver", match receiver with
        | some r => r.json
        | none => .null),
      ("method", .string method),
      ("args", .array (argumentJsons args)),
      ("block", match block with
        | some ⟨statements, s⟩ =>
          .object [("statements", .array (statementJsons statements)), ("span", s.json)]
        | none => .null),
      ("span", span.json)])]
  | .literal value span =>
    .object [("Literal", .object [("kind", value.json), ("span", span.json)])]
  | .sequence ⟨statements, span⟩ =>
    .object [("Block", .object [
      ("statements", .array (statementJsons statements)), ("span", span.json)])]

/-- Arguments in JSON. -/
def argumentJsons : List Argument → List Json
  | [] => []
  | .positional value :: args => .object [("Positional", value.json)] :: argumentJsons args
  | .named key value span :: args =>
    .object [("Named", .object [
      ("key", .string key), ("value", value.json), ("span", span.json)])] :: argumentJsons args

/-- Statements in JSON. -/
def statementJsons : List Expr → List Json
  | [] => []
  | statement :: statements => statement.json :: statementJsons statements
end

end UiScript
