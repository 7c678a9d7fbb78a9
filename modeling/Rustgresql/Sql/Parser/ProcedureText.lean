import Rustgresql.Sql.Parser.Reading

/-!
# CREATE PROCEDURE as it is written

A text is made of pieces that carry what they mean: words, names, types, values and statements.
-/

namespace Rustgresql.Sql

/-- A piece of a text that a program of the parser reads up to any symbol that may end it. -/
structure Fragment [Std] {α : Type} (p : Parse α) (ends : List TokenType) where
  symbols : List Symbol
  value : α
  reads : ∀ x : Symbol, x.tokenType ∈ ends →
    reading p (symbols.map some ++ [some x]) = some (value, [some x])

/-- A symbol of a type. -/
abbrev Spelled (t : TokenType) := { x : Symbol // x.tokenType = t }

/-- What may stand behind a value or a type. -/
def itemEnds : List TokenType := [.mark .comma, .mark .rightParen, .mark .semicolon]

theorem ne_default_of_mem_itemEnds {t : TokenType} (h : t ∈ itemEnds) : t ≠ .keyword .default := by
  rintro rfl
  revert h
  decide

/-- The words for parameter modes. -/
def modeWords : List Text := [['I', 'N'], ['O', 'U', 'T'], ['I', 'N', 'O', 'U', 'T']]

section Texts

variable [Std] {β : Type}

/-- A mode as written. The word IN is a keyword, the others are not. -/
inductive ModeText
  | default
  | «in» (x : Spelled (.keyword .«in»)) (h : x.1.value.toUppercase = ['I', 'N'])
  | out (x : Symbol) (name : Text) (hx : x.tokenType = .identifier name)
    (h : name.toUppercase = ['O', 'U', 'T'])
  | inOut (x : Symbol) (name : Text) (hx : x.tokenType = .identifier name)
    (h : name.toUppercase = ['I', 'N', 'O', 'U', 'T'])

namespace ModeText

def symbols : ModeText → List Symbol
  | default => []
  | «in» x _ => [x.1]
  | out x _ _ _ => [x]
  | inOut x _ _ _ => [x]

def mode : ModeText → ParameterMode
  | default => .«in»
  | «in» _ _ => .«in»
  | out _ _ _ _ => .out
  | inOut _ _ _ _ => .inOut

end ModeText

/-- DEFAULT and a value. -/
structure DefaultText where
  word : Spelled (.keyword .default)
  expression : Fragment (call (.expression .or)) itemEnds

/-- A name with a type and perhaps a default value. -/
structure TypedText where
  word : Symbol
  name : Text
  hname : word.tokenType.identifierName = some name
  dataType : Fragment parseDataType (.keyword .default :: itemEnds)
  defaultValue : Option DefaultText

namespace TypedText

def symbols (d : TypedText) : List Symbol :=
  d.word :: d.dataType.symbols ++
    d.defaultValue.elim [] fun v => v.word.1 :: v.expression.symbols

def value (d : TypedText) : Option Expression := d.defaultValue.map fun v => v.expression.value

end TypedText

/-- A parameter. A name without a mode is no word for a mode, and an OUT parameter has no default. -/
structure ParameterText where
  mode : ModeText
  typed : TypedText
  hname : mode = .default → typed.name.toUppercase ∉ modeWords
  hdefault : mode.mode = .out → typed.defaultValue = none

namespace ParameterText

def symbols (p : ParameterText) : List Symbol := p.mode.symbols ++ p.typed.symbols

def ast (p : ParameterText) : ProcedureParameter Expression :=
  ⟨p.typed.name, p.typed.dataType.value, p.mode.mode, p.typed.value⟩

end ParameterText

/-- The word CONSTANT -/
def constantWord : Text := ['C', 'O', 'N', 'S', 'T', 'A', 'N', 'T']

/-- A declaration. A variable that is not constant is not called so. -/
structure DeclarationText where
  constant : Option { x : Symbol // ∃ name, x.tokenType = .identifier name ∧ name.toUppercase = constantWord }
  typed : TypedText
  hname : constant = none → typed.name.toUppercase ≠ constantWord

namespace DeclarationText

def symbols (d : DeclarationText) : List Symbol := (d.constant.elim [] fun x => [x.1]) ++ d.typed.symbols

def ast (d : DeclarationText) : Declaration Expression :=
  ⟨d.typed.name, d.typed.dataType.value, d.typed.value, d.constant.isSome⟩

end DeclarationText

/-- A statement with its semicolon. -/
structure StatementText where
  statement : Fragment parseStatement [.mark .semicolon]
  semicolon : Spelled (.mark .semicolon)

namespace StatementText

def symbols (s : StatementText) : List Symbol := s.statement.symbols ++ [s.semicolon.1]

def ast (s : StatementText) : Statement := s.statement.value

end StatementText

/-- A condition name -/
abbrev NameText := { p : Symbol × Text // p.1.tokenType.identifierName = some p.2 }

/-- WHEN condition OR condition ... THEN statements -/
structure HandlerText where
  when : Spelled (.keyword .when)
  first : NameText
  others : List (Spelled (.keyword .or) × NameText)
  «then» : Spelled (.keyword .«then»)
  statements : List StatementText

namespace HandlerText

def otherSymbols (others : List (Spelled (.keyword .or) × NameText)) : List Symbol :=
  others.flatMap fun p => [p.1.1, p.2.1.1]

def symbols (h : HandlerText) : List Symbol :=
  h.when.1 :: h.first.1.1 :: otherSymbols h.others ++ h.then.1 ::
    h.statements.flatMap StatementText.symbols

def names (h : HandlerText) : List Text := h.first.1.2 :: h.others.map fun p => p.2.1.2

def ast (h : HandlerText) : ExceptionCondition × List Statement :=
  (exceptionCondition h.names, h.statements.map StatementText.ast)

end HandlerText

/-- Items with commas between them. -/
structure ListText (I : Type) where
  first : I
  others : List (Spelled (.mark .comma) × I)

namespace ListText

variable {I : Type}

def items (l : ListText I) : List I := l.first :: l.others.map Prod.snd

def symbols (f : I → List Symbol) (l : ListText I) : List Symbol :=
  f l.first ++ l.others.flatMap fun p => p.1.1 :: f p.2

end ListText

/-- DECLARE declarations ; -/
structure DeclareText where
  declare : Spelled (.keyword .declare)
  declarations : ListText DeclarationText
  semicolon : Spelled (.mark .semicolon)

/-- EXCEPTION handlers -/
structure ExceptionText where
  exception : Spelled (.keyword .exception)
  handlers : List HandlerText

/-- BEGIN declarations statements exceptions END -/
structure BodyText where
  begin : Spelled (.keyword .begin)
  declare : Option DeclareText
  statements : List StatementText
  exception : Option ExceptionText
  «end» : Spelled (.keyword .«end»)

/-- The clauses before AS -/
def parseClauses : Parse (ProcedureLanguage × Bool) := do
  let language ← parseLanguage
  let securityDefiner ← parseSecurity
  return (language, securityDefiner)

/-- A CREATE PROCEDURE statement -/
structure ProcedureText where
  create : Spelled (.keyword .create)
  procedure : Spelled (.keyword .procedure)
  name : NameText
  leftParen : Spelled (.mark .leftParen)
  parameters : Option (ListText ParameterText)
  rightParen : Spelled (.mark .rightParen)
  clauses : Fragment parseClauses [.keyword .«as»]
  «as» : Spelled (.keyword .«as»)
  body : BodyText

namespace BodyText

def symbols (b : BodyText) : List Symbol :=
  b.begin.1 ::
    (b.declare.elim [] fun d =>
      d.declare.1 :: d.declarations.symbols DeclarationText.symbols ++ [d.semicolon.1]) ++
    b.statements.flatMap StatementText.symbols ++
    (b.exception.elim [] fun e => e.exception.1 :: e.handlers.flatMap HandlerText.symbols) ++ [b.end.1]

def exceptionAst (e : ExceptionText) : ExceptionHandler Statement :=
  ⟨(e.handlers.map HandlerText.ast).map Prod.fst, (e.handlers.map HandlerText.ast).flatMap Prod.snd⟩

def ast (b : BodyText) : BlockStatement Expression Statement :=
  ⟨b.declare.elim [] fun d => d.declarations.items.map DeclarationText.ast,
    b.statements.map StatementText.ast, b.exception.map exceptionAst⟩

/-- The END of the procedure is read once: there is an exception section, with at most one handler. -/
def EndsOnce (b : BodyText) : Prop := ∃ e ∈ b.exception, e.handlers.length ≤ 1

end BodyText

namespace ProcedureText

def items (t : ProcedureText) : List ParameterText := t.parameters.elim [] ListText.items

def symbols (t : ProcedureText) : List Symbol :=
  t.create.1 :: t.procedure.1 :: t.name.1.1 :: t.leftParen.1 ::
    (t.parameters.elim [] (ListText.symbols ParameterText.symbols)) ++ t.rightParen.1 ::
    t.clauses.symbols ++ t.as.1 :: t.body.symbols

def ast (t : ProcedureText) : Statement :=
  .createProcedure t.name.1.2 (t.items.map ParameterText.ast) t.clauses.value.1 t.body.ast false
    t.clauses.value.2

/-- No parameter is written with the word IN. -/
def WithoutIn (p : ParameterText) : Prop := ∀ x h, p.mode ≠ .in x h

end ProcedureText

end Texts

end Rustgresql.Sql
