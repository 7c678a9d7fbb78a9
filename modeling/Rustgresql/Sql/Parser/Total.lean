import Rustgresql.Sql.Lexeme
import Rustgresql.Sql.Parser.Statement

/-!
# The parser always ends

Every program of the family takes a token before its first call, so the depth of calls is bounded by
the number of tokens. The parser panics only at a number token that an expression cannot convert.
-/

namespace Rustgresql.Sql

open TokenProgram (Prog Stop State Outcome Reader interp run exec Proper exec_proper exec_length_lt
  interp_bind_error)

/-! ## Every program takes a token first -/

section Guarded

variable {α : Type}

@[simp] theorem strict_fail (m : String) : (fail m : Parse α).Strict := trivial

@[simp] theorem strict_failAtValue (m : String) : (failAtValue m : Parse α).Strict := trivial

@[simp] theorem strict_failValue (m : String) : (failValue m : Parse α).Strict := trivial

@[simp] theorem strict_failPlain (m : String) : (failPlain m : Parse α).Strict := trivial

@[simp] theorem strict_consumeKeyword (k : Keyword) (m : String) : (consumeKeyword k m).Strict :=
  trivial

@[simp] theorem strict_consumeMark (k : Mark) (m : String) : (consumeMark k m).Strict := trivial

@[simp] theorem strict_consumeIdentifier : consumeIdentifier.Strict := trivial

/-- A program that looks whether a token matches goes on as if it did not. -/
@[simp] theorem strict_matchKeyword (k : Keyword) (f : Bool → Parse α) :
    (matchKeyword k >>= f).Strict ↔ (f false).Strict := Iff.rfl

@[simp] theorem strict_matchMark (m : Mark) (f : Bool → Parse α) :
    (matchMark m >>= f).Strict ↔ (f false).Strict := Iff.rfl

@[simp] theorem strict_matchName (f : Option Text → Parse α) :
    (matchName >>= f).Strict ↔ (f none).Strict := Iff.rfl

@[simp] theorem strict_peekType (f : Option TokenType → Parse α) :
    (peekType >>= f).Strict ↔ ∀ x : Option Symbol, (f (x.map Symbol.tokenType)).Strict := Iff.rfl

@[simp] theorem guarded_matchKeyword (k : Keyword) (f : Bool → Parse α) :
    (matchKeyword k >>= f).Guarded ↔ (f false).Guarded := Iff.rfl

@[simp] theorem guarded_matchMark (m : Mark) (f : Bool → Parse α) :
    (matchMark m >>= f).Guarded ↔ (f false).Guarded := Iff.rfl

@[simp] theorem guarded_peekType (f : Option TokenType → Parse α) :
    (peekType >>= f).Guarded ↔ ∀ x : Option Symbol, (f (x.map Symbol.tokenType)).Guarded := Iff.rfl

@[simp] theorem guarded_isAtEnd (f : Bool → Parse α) :
    (isAtEnd >>= f).Guarded ↔ ∀ b, (f b).Guarded := Iff.rfl

@[simp] theorem guarded_matchSetOperator (f : Option SetOperator → Parse α) :
    (matchSetOperator >>= f).Guarded ↔ (f none).Guarded := Iff.rfl

@[simp] theorem guarded_pure (a : α) : (pure a : Parse α).Guarded := trivial

attribute [simp] Prog.Strict.bind Prog.Strict.map

@[simp] theorem strict_parseTableRef : parseTableRef.Strict := by simp [parseTableRef]

@[simp] theorem strict_parseJoin : parseJoin.Strict := by
  simp [parseJoin, parseJoinType, Prog.Guarded.bind_strict]

variable [Std]

@[simp] theorem strict_matchIdentifierToken (name : Text) (f : Bool → Parse α) :
    (matchIdentifierToken name >>= f).Strict ↔ (f false).Strict := Iff.rfl

@[simp] theorem strict_parsePrimaryExpression : parsePrimaryExpression.Strict := trivial

@[simp] theorem strict_parseUnaryExpression : parseUnaryExpression.Strict := by
  simp [parseUnaryExpression]

@[simp] theorem strict_parseMultiplicativeExpression : parseMultiplicativeExpression.Strict := by
  simp [parseMultiplicativeExpression]

@[simp] theorem strict_parseAdditiveExpression : parseAdditiveExpression.Strict := by
  simp [parseAdditiveExpression]

@[simp] theorem strict_parseComparisonExpression : parseComparisonExpression.Strict := by
  simp [parseComparisonExpression]

@[simp] theorem strict_parseNotExpression : parseNotExpression.Strict := by
  simp [parseNotExpression]

@[simp] theorem strict_parseAndExpression : parseAndExpression.Strict := by
  simp [parseAndExpression]

@[simp] theorem strict_parseOrExpression : parseOrExpression.Strict := by
  simp [parseOrExpression]

theorem strict_parseLevel (l : Level) : (parseLevel l).Strict := by
  cases l <;> simp [parseLevel]

@[simp] theorem strict_parseExpression : parseExpression.Strict := strict_parseLevel .or

@[simp] theorem strict_parseColumn : parseColumn.Strict := by simp [parseColumn]

@[simp] theorem strict_parseColumns : parseColumns.Strict := by simp [parseColumns]

@[simp] theorem strict_parseSelectBody : parseSelectBody.Strict := by simp [parseSelectBody]

@[simp] theorem strict_parseStatement : parseStatement.Strict := by
  simp only [parseStatement, strict_peekType]
  intro x
  split
  all_goals simp [parseWithSelect, parseSelect, parseInsert, parseUpdate, parseDelete, parseCreate,
    parseDrop, parseAlter, parseRefreshMaterializedView, parseCallProcedure, parsePerformStatement,
    parseTransaction]

theorem parser_guarded (c : Call) : (parser c).Guarded := by
  cases c with
  | expression l => exact (strict_parseLevel l).guarded
  | operators l left => trivial
  | whenBranches => simp [parser, whenBranches]
  | statement => exact strict_parseStatement.guarded
  | selectAfterSelect b =>
    simp only [parser, parseSelectAfterSelectImpl]
    exact (Prog.Strict.bind strict_parseSelectBody _).guarded
  | setOperations left => simp [parser, parseSetOperations]
  | joins =>
    simp only [parser, joins, guarded_peekType]
    intro x
    split
    · exact (Prog.Strict.bind strict_parseJoin _).guarded
    · exact guarded_pure _
  | more i => simp [parser, parseMore]
  | arraySuffix element => simp [parser, arraySuffix]
  | columnConstraints => trivial
  | blockStatements =>
    simp only [parser, blockStatements, guarded_isAtEnd]
    intro b
    split
    · exact guarded_pure _
    simp only [guarded_matchKeyword, guarded_peekType, Bool.false_eq_true, ↓reduceIte]
    intro x
    split
    · exact (Prog.Strict.bind (by simp [parseExceptionHandler]) _).guarded
    · exact (Prog.Strict.bind strict_parseStatement _).guarded
  | handlers => simp [parser, handlers]
  | exceptionNames => simp [parser, exceptionNames]
  | handlerStatements =>
    simp only [parser, handlerStatements, guarded_isAtEnd]
    intro b
    split
    · exact guarded_pure _
    simp only [guarded_matchKeyword, guarded_peekType, Bool.false_eq_true, ↓reduceIte]
    intro x
    split
    · exact guarded_pure _
    · exact (Prog.Strict.bind strict_parseStatement _).guarded

end Guarded

section Interp

variable {α : Type} {rd : Reader Token Symbol Value} {f : (c : Call) → State Token → Outcome String Token c.Result}
  {s s' : State Token} {x : Symbol}

theorem interp_matchToken (h : rd.next s = some (x, s')) (t : TokenType) (k : Bool → Parse α) :
    interp rd f (matchToken t >>= k) s =
      if x.tokenType = t then interp rd f (k true) s' else interp rd f (k false) s := by
  change interp rd f (.take _ _ _) s = _
  simp only [interp, h, decide_eq_true_eq]
  rfl

theorem interp_consumeToken (h : rd.next s = some (x, s')) {t : TokenType} (ht : x.tokenType = t)
    (m : String) (k : Unit → Parse α) :
    interp rd f (consumeToken t m >>= k) s = interp rd f (k ()) s' := by
  change interp rd f (.take _ _ _) s = _
  simp only [interp, h, ht]
  rfl

theorem interp_peekType (h : rd.next s = some (x, s')) (k : Option TokenType → Parse α) :
    interp rd f (peekType >>= k) s = interp rd f (k (some x.tokenType)) s := by
  change interp rd f (.look _) s = _
  simp only [interp, h]
  rfl

end Interp

/-! ## The whole parser -/

section Total

variable [Std] {α : Type}

/-- The parser returns, with a result or with an error. -/
def Returns (o : Except (Stop String) α) : Prop := (∃ a, o = .ok a) ∨ ∃ m, o = .error (.error m)

/-- A number token that no expression can convert. -/
def Unconvertible (t : Token) : Prop :=
  ∃ x, t.symbol = some x ∧ isNumberToken x.tokenType ∧ numberValue x.value = none

/-- The loop ends, and panics only at a number that cannot be converted. -/
theorem parseLoop_returns (eof : Token) (n : ℕ) (s : State Token) (hn : s.rest.length < n) :
    Returns (parseLoop (reader eof) n s) ∨
      parseLoop (reader eof) n s = .error .panic ∧ ∃ t ∈ s.rest, Unconvertible t := by
  induction n generalizing s with
  | zero => omega
  | succ n ih =>
    rcases hr : s.rest with - | ⟨t, rest⟩
    · exact .inl (.inl ⟨[], by simp [parseLoop, hr]⟩)
    rw [hr, List.length_cons] at hn
    simp only [parseLoop, hr]
    split
    · -- a comment
      rcases ih ⟨some t, rest⟩ (by simpa using hn) with h | ⟨h, u, hu, hx⟩
      · exact .inl h
      · exact .inr ⟨h, u, List.mem_cons_of_mem t hu, hx⟩
    · have hproper : Proper (reader eof) s (exec (reader eof) parser .statement s) :=
        exec_proper parser_guarded .statement s
      rcases he : exec (reader eof) parser .statement s with e | ⟨statement, s'⟩
      · rw [he] at hproper
        match e with
        | .error m => exact .inl (.inr ⟨m, rfl⟩)
        | .panic =>
          obtain ⟨u, hu, x, hx, hv⟩ := hproper
          refine .inr ⟨rfl, u, hr ▸ hu, x, hx, ?_⟩
          simp only [reader] at hv
          split at hv
          · next ht => simp_all [isNumberToken]
          · cases hv
      · have hlt := exec_length_lt (c := .statement) parser_guarded strict_parseStatement he
        rw [he] at hproper
        rw [hr, List.length_cons] at hlt
        rcases hr' : s'.rest with - | ⟨u, rest'⟩
        · exact .inl (.inl ⟨[statement], by simp [hr']⟩)
        simp only [hr']
        split
        · have hsub : rest' <:+ t :: rest := by
            have := hproper.1
            rw [hr, hr'] at this
            exact (List.suffix_cons u rest').trans this
          rw [hr', List.length_cons] at hlt
          rcases ih ⟨some u, rest'⟩ (by simp only; omega) with (⟨sts, h⟩ | ⟨m, h⟩) | ⟨h, v, hv, hx⟩
          · exact .inl (.inl ⟨statement :: sts, by rw [h]; rfl⟩)
          · exact .inl (.inr ⟨m, by rw [h]; rfl⟩)
          · exact .inr ⟨by rw [h]; rfl, v, hsub.mem hv, hx⟩
        · exact .inl (.inr ⟨_, rfl⟩)

/-- The texts of the number tokens of a statement. -/
def numberTexts (sql : Text) : List Text :=
  match (Lexer.new sql).tokenize with
  | .ok ts => ts.filterMap fun t => if isNumberToken t.tokenType then some t.value else none
  | .error _ => []

theorem parseSql_returns {sql : Text} (h : ∀ t ∈ numberTexts sql, (numberValue t).isSome) :
    Returns (parseSql sql) := by
  unfold parseSql
  rcases Lexer.tokenize_reads sql with ⟨ts, eof, ht, -, -⟩ | ⟨m, ht, -⟩
  · rw [ht]
    simp only [Except.bind, parse, List.getLast?_concat, List.dropLast_concat]
    rcases parseLoop_returns eof ((ts ++ [eof]).length + 1) ⟨none, ts⟩ (by simp) with
      hr | ⟨-, t, hmem, x, hx, hnum, hv⟩
    · exact hr
    · -- the number in question is one of the text
      have hmem' : x.value ∈ numberTexts sql := by
        have htype := Token.tokenType_of_symbol hx
        have hvalue : t.value = x.value := Token.value_of_symbol hx
        simp only [numberTexts, ht, List.mem_filterMap]
        exact ⟨t, List.mem_append_left _ hmem, by simp [htype, hnum, hvalue]⟩
      have := h _ hmem'
      rw [hv] at this
      cases this
  · rw [ht]
    exact .inr ⟨m, rfl⟩

/-! ### A number that cannot be converted -/

/-- A query of one number. -/
def selectNumber (n : Text) (h : IsNumber n) : Text := write [.keyword .select rfl, .number n h]

theorem tokenize_selectNumber {n : Text} (h : IsNumber n) :
    ∃ select number eof, (Lexer.new (selectNumber n h)).tokenize = .ok [select, number, eof] ∧
      select.tokenType = .keyword .select ∧ number.tokenType = .number n ∧ number.value = n ∧
      eof.tokenType = .eof := by
  rcases Lexer.tokenize_reads (selectNumber n h) with ⟨ts, eof, ht, heof, hs⟩ | ⟨m, -, hs⟩
  · obtain ⟨-, hts⟩ := (scans_write _).mp hs
    obtain ⟨select, ts, rfl, hselect, hts⟩ := List.map_eq_cons_iff.mp hts
    obtain ⟨number, ts, rfl, hnumber, hts⟩ := List.map_eq_cons_iff.mp hts
    obtain rfl := List.map_eq_nil_iff.mp hts
    exact ⟨select, number, eof, ht, Token.tokenType_of_symbol hselect,
      Token.tokenType_of_symbol hnumber, Token.value_of_symbol hnumber, heof⟩
  · exact absurd ((scans_write _).mpr ⟨by simp [Lexeme.isQuoted], rfl⟩) (hs _)

/-- The number is read as an expression, through all levels, and has no value. -/
theorem exec_selectNumber {n : Text} (hn : numberValue n = none) (eof : Token)
    (l c l' c' : ℕ) (v : Text) :
    exec (reader eof) parser .statement
      ⟨none, [⟨.keyword .select, l, c, v⟩, ⟨.number n, l', c', n⟩]⟩ = .error .panic := by
  set s : State Token := ⟨none, [⟨.keyword .select, l, c, v⟩, ⟨.number n, l', c', n⟩]⟩
  set s' : State Token := ⟨some ⟨.keyword .select, l, c, v⟩, [⟨.number n, l', c', n⟩]⟩
  set s'' : State Token := ⟨some ⟨.number n, l', c', n⟩, []⟩
  have hs : (reader eof).next s = some (⟨.keyword .select, v⟩, s') := rfl
  have hs' : (reader eof).next s' = some (⟨.number n, n⟩, s'') := rfl
  have primary (f) : interp (reader eof) f parsePrimaryExpression s' = .error .panic := by
    rw [parsePrimaryExpression, interp, hs']
    simp only [reader, hn]
  -- the number is neither a sign nor NOT
  have unary (f) : interp (reader eof) f parseUnaryExpression s' = .error .panic := by
    rw [parseUnaryExpression, matchMark, interp_matchToken hs', if_neg nofun, if_neg nofun, matchMark,
      interp_matchToken hs', if_neg nofun, if_neg nofun, matchKeyword, interp_matchToken hs',
      if_neg nofun, if_neg nofun, primary]
  have comparison (f) : interp (reader eof) f parseComparisonExpression s' = .error .panic :=
    interp_bind_error (interp_bind_error (interp_bind_error (unary f) _) _) _
  have not (f) : interp (reader eof) f parseNotExpression s' = .error .panic := by
    rw [parseNotExpression, matchKeyword, interp_matchToken hs', if_neg nofun, if_neg nofun, comparison]
  have expression (f) : interp (reader eof) f parseExpression s' = .error .panic :=
    interp_bind_error (interp_bind_error (not f) _) _
  have columns (f) : interp (reader eof) f parseColumns s' = .error .panic := by
    rw [parseColumns, matchMark, interp_matchToken hs', if_neg nofun, if_neg nofun]
    exact interp_bind_error (interp_bind_error (expression f) _) _
  have select : run (reader eof) parser 2 (.selectAfterSelect false) s' = .error .panic := by
    rw [run, parser, parseSelectAfterSelectImpl, parseSelectBody]
    apply interp_bind_error
    rw [matchKeyword, interp_matchToken hs', if_neg nofun]
    exact interp_bind_error (columns _) _
  have query : interp (reader eof) (run (reader eof) parser 2) parseSelect s = .error .panic := by
    rw [parseSelect, consumeKeyword, interp_consumeToken hs rfl, call, interp, select]
  rw [exec, run, parser, parseStatement, interp_peekType hs]
  exact interp_bind_error query _

theorem parseSql_selectNumber {n : Text} (h : IsNumber n) (hn : numberValue n = none) :
    parseSql (selectNumber n h) = .error .panic := by
  obtain ⟨⟨_, l, c, v⟩, ⟨_, l', c', _⟩, eof, ht, htype, htype', hvalue, -⟩ := tokenize_selectNumber h
  dsimp only at htype htype' hvalue
  subst htype htype' hvalue
  rw [parseSql, ht]
  have hrun := exec_selectNumber hn eof l c l' c' v
  simp [Except.bind, parse, parseLoop, Token.symbol, hrun]

theorem numberTexts_selectNumber {n : Text} (h : IsNumber n) {t : Text}
    (ht : t ∈ numberTexts (selectNumber n h)) : t = n := by
  obtain ⟨select, number, eof, h, htype, htype', hvalue, heof⟩ := tokenize_selectNumber h
  simpa [numberTexts, h, htype, htype', hvalue, heof, isNumberToken] using ht

end Total

end Rustgresql.Sql
