import Rustgresql.Sql.Parser.ProcedureText

/-!
# Reading CREATE PROCEDURE

Which of the texts the parser reads as they are written: those without the word IN, with an exception
section of at most one handler.
-/

namespace Rustgresql.Sql

open TokenProgram (reads)

section Texts

variable [Std] {β : Type}

/-! ## Items -/

theorem Fragment.reading {α : Type} {p : Parse α} {ends : List TokenType} (f : Fragment p ends)
    {x : Symbol} (hx : x.tokenType ∈ ends) (l : List (Option Symbol)) :
    reading p (f.symbols.map some ++ some x :: l) = some (f.value, some x :: l) := by
  have h := reading_append (f.reads x hx) (List.cons_ne_nil _ _) l
  rwa [List.append_assoc] at h

theorem reading_parseDefault_none {x : Symbol} (hx : x.tokenType ∈ itemEnds) (l : List (Option Symbol)) :
    reading parseDefault (some x :: l) = some (none, some x :: l) := by
  unfold parseDefault parseClause
  rw [reading_bind_of (reading_matchKeyword_ne (ne_default_of_mem_itemEnds hx))]
  rfl

theorem reading_parseDefault (v : DefaultText) {x : Symbol} (hx : x.tokenType ∈ itemEnds)
    (l : List (Option Symbol)) :
    reading parseDefault (some v.word.1 :: (v.expression.symbols.map some ++ some x :: l)) =
      some (some v.expression.value, some x :: l) := by
  unfold parseDefault parseClause
  rw [reading_bind_of (reading_matchKeyword_of v.word.2), if_pos rfl]
  exact reading_bind_of (v.expression.reading hx l) _

theorem TypedText.reading_dataType (d : TypedText) {x : Symbol} (hx : x.tokenType ∈ itemEnds)
    (l : List (Option Symbol)) (k : DataTypeKind → Parse β) :
    reading (parseDataType >>= k) ((d.symbols.tail).map some ++ some x :: l) =
      reading (k d.dataType.value) (((d.defaultValue.elim [] fun v =>
        v.word.1 :: v.expression.symbols).map some) ++ some x :: l) := by
  unfold TypedText.symbols
  rcases d.defaultValue with - | v
  · have h := d.dataType.reading (List.mem_cons_of_mem _ hx) l
    simpa using reading_bind_of h k
  · have h := d.dataType.reading (x := v.word.1) (List.mem_cons.mpr (.inl v.word.2))
      (v.expression.symbols.map some ++ some x :: l)
    simpa using reading_bind_of h k

theorem TypedText.reading_default (d : TypedText) {x : Symbol} (hx : x.tokenType ∈ itemEnds)
    (l : List (Option Symbol)) :
    reading parseDefault (((d.defaultValue.elim [] fun v =>
        v.word.1 :: v.expression.symbols).map some) ++ some x :: l) = some (d.value, some x :: l) := by
  unfold TypedText.value
  rcases d.defaultValue with - | v
  · exact reading_parseDefault_none hx l
  · exact reading_parseDefault v hx l

theorem reading_matchIdentifierToken_of {x : Symbol} {name word : Text}
    (h : x.tokenType.identifierName = some name) (hname : name.toUppercase = word)
    (l : List (Option Symbol)) :
    reading (matchIdentifierToken word) (some x :: l) = some (true, l) := by
  simp [matchIdentifierToken, reads, h, hname]

theorem reading_matchIdentifierToken_ne {x : Symbol} {word : Text}
    (h : ∀ name ∈ x.tokenType.identifierName, name.toUppercase ≠ word) (l : List (Option Symbol)) :
    reading (matchIdentifierToken word) (some x :: l) = some (false, some x :: l) := by
  have hany : x.tokenType.identifierName.any (fun name => name.toUppercase = word) = false := by
    rcases hx : x.tokenType.identifierName with - | name
    · rfl
    · simpa using h name hx
  simp [matchIdentifierToken, reads, hany]

theorem reading_parseParameterMode_none {x : Symbol}
    (h : ∀ name ∈ x.tokenType.identifierName, name.toUppercase ∉ modeWords) (l : List (Option Symbol)) :
    reading parseParameterMode (some x :: l) = some (.«in», some x :: l) := by
  have hne (word : Text) (hword : word ∈ modeWords) :
      reading (matchIdentifierToken word) (some x :: l) = some (false, some x :: l) :=
    reading_matchIdentifierToken_ne (fun name hname heq => h name hname (heq ▸ hword)) l
  unfold parseParameterMode
  rw [reading_bind_of (hne _ (by decide)), if_neg Bool.false_ne_true,
    reading_bind_of (hne _ (by decide)), if_neg Bool.false_ne_true,
    reading_bind_of (hne _ (by decide)), if_neg Bool.false_ne_true]
  rfl

/-- What is read behind a mode. -/
theorem TypedText.reading_parameter (d : TypedText) {x : Symbol} (hx : x.tokenType ∈ itemEnds)
    (l : List (Option Symbol)) {mode : ParameterMode} (hmode : mode = .out → d.defaultValue = none)
    {modeSymbols : List (Option Symbol)}
    (h : ∀ l, reading parseParameterMode (modeSymbols ++ some d.word :: l) =
      some (mode, some d.word :: l)) :
    reading parseProcedureParameter (modeSymbols ++ (d.symbols.map some ++ some x :: l)) =
      some (⟨d.name, d.dataType.value, mode, d.value⟩, some x :: l) := by
  have hsymbols : d.symbols.map some = some d.word :: d.symbols.tail.map some := rfl
  rw [hsymbols, List.cons_append]
  unfold parseProcedureParameter
  rw [reading_bind_of (h _),
    reading_bind_of (reading_consumeIdentifier (identifier_of_identifierName d.hname)),
    d.reading_dataType hx]
  by_cases hout : mode = .out
  · rw [if_neg (not_not_intro hout)]
    have hdefault := hmode hout
    unfold TypedText.value
    rw [hdefault]
    rfl
  · rw [if_pos hout, reading_bind_of (d.reading_default hx l)]
    rfl

theorem reading_outMode {x : Symbol} {name : Text} (hx : x.tokenType = .identifier name)
    (h : name.toUppercase = ['O', 'U', 'T']) (l : List (Option Symbol)) :
    reading parseParameterMode (some x :: l) = some (.out, l) := by
  have hname : x.tokenType.identifierName = some name := by rw [hx]; rfl
  have hin : ∀ n ∈ x.tokenType.identifierName, n.toUppercase ≠ ['I', 'N'] := by
    intro n hn
    rw [hname, Option.mem_some_iff] at hn
    rw [← hn, h]
    decide
  unfold parseParameterMode
  rw [reading_bind_of (reading_matchIdentifierToken_ne hin l), if_neg Bool.false_ne_true,
    reading_bind_of (reading_matchIdentifierToken_of hname h l)]
  rfl

theorem reading_inOutMode {x : Symbol} {name : Text} (hx : x.tokenType = .identifier name)
    (h : name.toUppercase = ['I', 'N', 'O', 'U', 'T']) (l : List (Option Symbol)) :
    reading parseParameterMode (some x :: l) = some (.inOut, l) := by
  have hname : x.tokenType.identifierName = some name := by rw [hx]; rfl
  have hne (word : Text) (hword : word ≠ ['I', 'N', 'O', 'U', 'T']) :
      ∀ n ∈ x.tokenType.identifierName, n.toUppercase ≠ word := by
    intro n hn
    rw [hname, Option.mem_some_iff] at hn
    rw [← hn, h]
    exact hword.symm
  unfold parseParameterMode
  rw [reading_bind_of (reading_matchIdentifierToken_ne (hne _ (by decide)) l),
    if_neg Bool.false_ne_true,
    reading_bind_of (reading_matchIdentifierToken_ne (hne _ (by decide)) l),
    if_neg Bool.false_ne_true, reading_bind_of (reading_matchIdentifierToken_of hname h l)]
  rfl

/-- A parameter that is written without IN is read as it is written. -/
theorem ParameterText.reading (p : ParameterText) (hin : ProcedureText.WithoutIn p) {x : Symbol}
    (hx : x.tokenType ∈ itemEnds) (l : List (Option Symbol)) :
    reading parseProcedureParameter (p.symbols.map some ++ some x :: l) = some (p.ast, some x :: l) := by
  obtain ⟨mode, typed, hname, hdefault⟩ := p
  rw [symbols, List.map_append, List.append_assoc]
  apply typed.reading_parameter hx l hdefault
  intro l
  cases mode with
  | default =>
    refine reading_parseParameterMode_none (fun name h => ?_) l
    rw [typed.hname, Option.mem_some_iff] at h
    exact h ▸ hname rfl
  | «in» y h => exact absurd rfl (hin y h)
  | out y name hy h => exact reading_outMode hy h _
  | inOut y name hy h => exact reading_inOutMode hy h _

/-- IN is no type. -/
theorem reading_parseDataType_none {x : Symbol} {name : Text}
    (hx : x.tokenType.identifierName = some name) (h : name.toUppercase = ['I', 'N'])
    (l : List (Option Symbol)) : reading parseDataType (some x :: l) = none := by
  have hkeyword (k : Keyword) : x.tokenType ≠ .keyword k := by
    intro hk
    rw [hk] at hx
    cases hx
  unfold parseDataType
  rw [reading_bind_of (reading_matchKeyword_ne (hkeyword _)), if_neg Bool.false_ne_true,
    reading_bind_of (reading_matchKeyword_ne (hkeyword _)), if_neg Bool.false_ne_true,
    reading_bind_of (reading_consumeIdentifier (identifier_of_identifierName hx)), reading_bind]
  unfold parseTypeNamed
  simp only [h]
  rfl

/-- The word IN becomes the name of the parameter, and its name would have to be a type. -/
theorem ParameterText.name_ne (p : ParameterText) (hin : ¬ ProcedureText.WithoutIn p)
    {l l' : List (Option Symbol)} {a : ProcedureParameter Expression}
    (h : Rustgresql.Sql.reading parseProcedureParameter (p.symbols.map some ++ l) = some (a, l')) :
    a ≠ p.ast := by
  rintro rfl
  obtain ⟨mode, typed, hname, hdefault⟩ := p
  cases mode with
  | default => exact hin nofun
  | out y name hy h => exact hin nofun
  | inOut y name hy h => exact hin nofun
  | «in» y hy =>
    have hsymbols : (ParameterText.symbols ⟨.in y hy, typed, hname, hdefault⟩).map some ++ l =
        some y.1 :: some typed.word :: (typed.symbols.tail.map some ++ l) := rfl
    have hnone : ∀ name ∈ y.1.tokenType.identifierName, name.toUppercase ∉ modeWords := by
      rw [y.2]
      exact nofun
    have hidentifier : y.1.identifier = some y.1.value := by
      unfold Symbol.identifier
      rw [y.2]
    rw [hsymbols] at h
    unfold parseProcedureParameter at h
    rw [reading_bind_of (reading_parseParameterMode_none hnone _),
      reading_bind_of (reading_consumeIdentifier hidentifier), reading_bind] at h
    obtain ⟨⟨dataType, l₁⟩, hdataType, h⟩ := Option.bind_eq_some_iff.mp h
    rw [if_pos (by decide), reading_bind] at h
    obtain ⟨⟨defaultValue, l₂⟩, -, h⟩ := Option.bind_eq_some_iff.mp h
    have hvalue : y.1.value = typed.name := congrArg (fun r => r.1.name) (Option.some.inj h)
    rw [reading_parseDataType_none typed.hname (hvalue ▸ hy)] at hdataType
    cases hdataType

/-! ## Lists -/

section Lists

variable {I : Type} {i : Item} {f : I → List Symbol} {ast : I → i.Result} {P : I → Prop}

theorem reading_parseMore_nil {x : Symbol} (hx : x.tokenType ≠ .mark .comma) (l : List (Option Symbol)) :
    reading (call (.more i)) (some x :: l) = some ([], some x :: l) := by
  rw [reading_call]
  change reading (parseMore i) _ = _
  unfold parseMore
  rw [reading_bind_of (reading_matchMark_ne hx)]
  rfl

theorem reading_parseMore_cons (c : Spelled (.mark .comma)) (l : List (Option Symbol)) :
    reading (call (.more i)) (some c.1 :: l) = reading (commaSeparated (parseItem i)) l := by
  rw [reading_call]
  change reading (parseMore i) _ = _
  unfold parseMore
  rw [reading_bind_of (reading_matchMark_of c.2), if_pos rfl]
  rfl

/-- Items with commas between them are read one by one, if each is. -/
theorem reading_commaSeparated (hitem : ∀ it, P it → ∀ x : Symbol, x.tokenType ∈ itemEnds → ∀ l,
      reading (parseItem i) ((f it).map some ++ some x :: l) = some (ast it, some x :: l))
    (L : ListText I) (hP : ∀ it ∈ L.items, P it) {x : Symbol} (hx : x.tokenType ∈ itemEnds)
    (hcomma : x.tokenType ≠ .mark .comma) (l : List (Option Symbol)) :
    reading (commaSeparated (parseItem i)) ((L.symbols f).map some ++ some x :: l) =
      some (L.items.map ast, some x :: l) := by
  obtain ⟨first, others⟩ := L
  induction others generalizing first with
  | nil =>
    unfold commaSeparated
    have hfirst := hitem first (hP _ (List.mem_cons_self ..)) x hx l
    simp only [ListText.symbols, List.flatMap_nil, List.append_nil]
    rw [reading_bind_of hfirst, reading_bind_of (reading_parseMore_nil hcomma l)]
    rfl
  | cons p others ih =>
    obtain ⟨c, second⟩ := p
    have hrest := ih second fun it hit => hP it (List.mem_cons_of_mem _ hit)
    have hfirst := hitem first (hP _ (List.mem_cons_self ..)) c.1 (by rw [c.2]; decide)
      (((ListText.mk second others).symbols f).map some ++ some x :: l)
    have hsymbols : ((ListText.mk first ((c, second) :: others)).symbols f).map some ++ some x :: l =
        (f first).map some ++ some c.1 :: (((ListText.mk second others).symbols f).map some ++
          some x :: l) := by
      simp [ListText.symbols]
    rw [hsymbols]
    unfold commaSeparated
    rw [reading_bind_of hfirst, reading_bind, reading_parseMore_cons, hrest]
    rfl

/-- If a list is read as it is written, so is every item. -/
theorem forall_of_reading_commaSeparated
    (hitem : ∀ it, P it → ∀ x : Symbol, x.tokenType ∈ itemEnds → ∀ l,
      reading (parseItem i) ((f it).map some ++ some x :: l) = some (ast it, some x :: l))
    (hbad : ∀ it, ¬ P it → ∀ l a l', reading (parseItem i) ((f it).map some ++ l) = some (a, l') →
      a ≠ ast it)
    (L : ListText I) {x : Symbol} {l l' : List (Option Symbol)}
    (h : reading (commaSeparated (parseItem i)) ((L.symbols f).map some ++ some x :: l) =
      some (L.items.map ast, l')) : ∀ it ∈ L.items, P it := by
  obtain ⟨first, others⟩ := L
  induction others generalizing first with
  | nil =>
    intro it hit
    obtain rfl : it = first := by simpa [ListText.items] using hit
    by_contra hP
    unfold commaSeparated at h
    simp only [ListText.symbols, List.flatMap_nil, List.append_nil] at h
    rw [reading_bind] at h
    obtain ⟨⟨a, l₁⟩, ha, h⟩ := Option.bind_eq_some_iff.mp h
    rw [reading_bind] at h
    obtain ⟨⟨as, l₂⟩, -, h⟩ := Option.bind_eq_some_iff.mp h
    exact hbad it hP _ _ _ ha (List.cons.inj (Prod.mk.inj (Option.some.inj h)).1).1
  | cons p others ih =>
    obtain ⟨c, second⟩ := p
    have hsymbols : ((ListText.mk first ((c, second) :: others)).symbols f).map some ++ some x :: l =
        (f first).map some ++ some c.1 :: (((ListText.mk second others).symbols f).map some ++
          some x :: l) := by
      simp [ListText.symbols]
    rw [hsymbols] at h
    unfold commaSeparated at h
    rw [reading_bind] at h
    obtain ⟨⟨a, l₁⟩, ha, h⟩ := Option.bind_eq_some_iff.mp h
    rw [reading_bind] at h
    obtain ⟨⟨as, l₂⟩, has, h⟩ := Option.bind_eq_some_iff.mp h
    obtain ⟨ha', has'⟩ := List.cons.inj (Prod.mk.inj (Option.some.inj h)).1
    have hfirst : P first := by
      by_contra hP
      exact hbad first hP _ _ _ ha ha'
    have hl₁ := (hitem first hfirst c.1 (by rw [c.2]; decide) _).symm.trans ha
    cases hl₁
    rw [reading_parseMore_cons] at has
    have hl₂ : l₂ = l' := (Prod.mk.inj (Option.some.inj h)).2
    have has'' : as = (ListText.mk second others).items.map ast := has'
    rw [has'', hl₂] at has
    have hrest := ih second has
    intro it hit
    rcases List.mem_cons.mp hit with rfl | hit
    · exact hfirst
    · exact hrest it hit

end Lists

theorem DeclarationText.reading (d : DeclarationText) {x : Symbol} (hx : x.tokenType ∈ itemEnds)
    (l : List (Option Symbol)) :
    reading parseDeclaration (d.symbols.map some ++ some x :: l) = some (d.ast, some x :: l) := by
  obtain ⟨constant, typed, hname⟩ := d
  have hsymbols : typed.symbols.map some = some typed.word :: typed.symbols.tail.map some := rfl
  have htyped (constant : Bool) : Rustgresql.Sql.reading (do
      let name ← consumeIdentifier
      let dataType ← parseDataType
      return (⟨name, dataType, ← parseDefault, constant⟩ : Declaration Expression))
      (typed.symbols.map some ++ some x :: l) =
      some (⟨typed.name, typed.dataType.value, typed.value, constant⟩, some x :: l) := by
    rw [hsymbols, List.cons_append,
      reading_bind_of (reading_consumeIdentifier (identifier_of_identifierName typed.hname)),
      typed.reading_dataType hx, reading_bind_of (typed.reading_default hx l)]
    rfl
  unfold parseDeclaration
  rcases constant with - | ⟨y, name, hy, hupper⟩
  · have hne : ∀ name ∈ typed.word.tokenType.identifierName, name.toUppercase ≠ constantWord := by
      intro name h
      rw [typed.hname, Option.mem_some_iff] at h
      exact h ▸ hname rfl
    exact (reading_bind_of (reading_matchIdentifierToken_ne hne _) _).trans (htyped false)
  · have hname : y.tokenType.identifierName = some name := by rw [hy]; rfl
    exact (reading_bind_of (reading_matchIdentifierToken_of hname hupper _) _).trans (htyped true)

/-! ## Blocks -/

theorem StatementText.exists_symbols (s : StatementText) :
    ∃ y ys, s.statement.symbols = y :: ys ∧ y.tokenType ∉ blockMarks := by
  have hreads := s.statement.reads s.semicolon.1 (by rw [s.semicolon.2]; decide)
  rcases hsymbols : s.statement.symbols with - | ⟨y, ys⟩
  · rw [hsymbols] at hreads
    have hnone := reading_parseStatement_none (x := s.semicolon.1) (l := [])
      (by rw [s.semicolon.2]; decide)
    cases hreads.symm.trans hnone
  · refine ⟨y, ys, rfl, fun hy => ?_⟩
    rw [hsymbols] at hreads
    cases hreads.symm.trans (reading_parseStatement_none hy)

theorem StatementText.reading (s : StatementText) (l : List (Option Symbol)) :
    reading parseStatement (s.symbols.map some ++ l) = some (s.ast, some s.semicolon.1 :: l) := by
  have h := s.statement.reading (x := s.semicolon.1) (by rw [s.semicolon.2]; decide) l
  simpa [StatementText.symbols, StatementText.ast] using h

theorem reading_blockStatements_semicolon (c : Spelled (.mark .semicolon)) (l : List (Option Symbol)) :
    reading (call .blockStatements) (some c.1 :: l) = reading (call .blockStatements) l := by
  have hne (k : Keyword) : c.1.tokenType ≠ .keyword k := by
    rw [c.2]
    exact nofun
  rw [reading_call]
  change reading blockStatements _ = _
  unfold blockStatements
  rw [reading_bind_of reading_isAtEnd, if_neg Bool.false_ne_true,
    reading_bind_of (reading_matchKeyword_ne (hne _)), if_neg Bool.false_ne_true,
    reading_bind_of reading_peekType, if_neg fun h => hne _ (Option.some.inj h),
    reading_bind_of (reading_matchMark_of c.2), if_pos rfl]

/-- A block reads its statements one by one. -/
theorem reading_blockStatements_cons (s : StatementText) (l : List (Option Symbol)) :
    reading (call .blockStatements) (s.symbols.map some ++ l) =
      (reading (call .blockStatements) l).map fun r => ((s.ast :: r.1.1, r.1.2), r.2) := by
  obtain ⟨y, ys, hsymbols, hy⟩ := s.exists_symbols
  have hne : ∀ t ∈ blockMarks, y.tokenType ≠ t := fun t ht h => hy (h ▸ ht)
  have hread := s.reading l
  have hcons : s.symbols.map some ++ l =
      some y :: ((ys ++ [s.semicolon.1]).map some ++ l) := by
    rw [StatementText.symbols, hsymbols]
    rfl
  rw [hcons] at hread ⊢
  rw [reading_call]
  change Rustgresql.Sql.reading blockStatements _ = _
  unfold blockStatements
  rw [reading_bind_of reading_isAtEnd, if_neg Bool.false_ne_true,
    reading_bind_of (reading_matchKeyword_ne (hne _ (by decide))), if_neg Bool.false_ne_true,
    reading_bind_of reading_peekType, if_neg fun h => hne _ (by decide) (Option.some.inj h),
    reading_bind_of (reading_matchMark_ne (hne _ (by decide))), if_neg Bool.false_ne_true,
    reading_bind_of hread, reading_bind, reading_blockStatements_semicolon]
  rcases Rustgresql.Sql.reading (call .blockStatements) l with - | ⟨⟨statements, handler⟩, l'⟩ <;> rfl

theorem reading_blockStatements (statements : List StatementText) (l : List (Option Symbol)) :
    reading (call .blockStatements) ((statements.flatMap StatementText.symbols).map some ++ l) =
      (reading (call .blockStatements) l).map fun r =>
        ((statements.map StatementText.ast ++ r.1.1, r.1.2), r.2) := by
  induction statements with
  | nil =>
    change reading (call .blockStatements) l = _
    rcases reading (call .blockStatements) l with - | ⟨⟨statements, handler⟩, l'⟩ <;> rfl
  | cons s statements ih =>
    rw [List.flatMap_cons, List.map_append, List.append_assoc, reading_blockStatements_cons, ih,
      Option.map_map]
    rfl

theorem reading_handlerStatements_semicolon (c : Spelled (.mark .semicolon))
    (l : List (Option Symbol)) :
    reading (call .handlerStatements) (some c.1 :: l) = reading (call .handlerStatements) l := by
  have hne (k : Keyword) : c.1.tokenType ≠ .keyword k := by
    rw [c.2]
    exact nofun
  rw [reading_call]
  change reading handlerStatements _ = _
  unfold handlerStatements
  rw [reading_bind_of reading_isAtEnd, if_neg Bool.false_ne_true,
    reading_bind_of (reading_matchKeyword_ne (hne _)), if_neg Bool.false_ne_true,
    reading_bind_of reading_peekType, if_neg fun h => hne _ (Option.some.inj h),
    reading_bind_of (reading_matchMark_of c.2), if_pos rfl]

theorem reading_handlerStatements_cons (s : StatementText) (l : List (Option Symbol)) :
    reading (call .handlerStatements) (s.symbols.map some ++ l) =
      (reading (call .handlerStatements) l).map fun r => (s.ast :: r.1, r.2) := by
  obtain ⟨y, ys, hsymbols, hy⟩ := s.exists_symbols
  have hne : ∀ t ∈ blockMarks, y.tokenType ≠ t := fun t ht h => hy (h ▸ ht)
  have hread := s.reading l
  have hcons : s.symbols.map some ++ l =
      some y :: ((ys ++ [s.semicolon.1]).map some ++ l) := by
    rw [StatementText.symbols, hsymbols]
    rfl
  rw [hcons] at hread ⊢
  rw [reading_call]
  change Rustgresql.Sql.reading handlerStatements _ = _
  unfold handlerStatements
  rw [reading_bind_of reading_isAtEnd, if_neg Bool.false_ne_true,
    reading_bind_of (reading_matchKeyword_ne (hne _ (by decide))), if_neg Bool.false_ne_true,
    reading_bind_of reading_peekType, if_neg fun h => hne _ (by decide) (Option.some.inj h),
    reading_bind_of (reading_matchMark_ne (hne _ (by decide))), if_neg Bool.false_ne_true,
    reading_bind_of hread, reading_bind, reading_handlerStatements_semicolon]
  rcases Rustgresql.Sql.reading (call .handlerStatements) l with - | ⟨statements, l'⟩ <;> rfl

theorem reading_handlerStatements (statements : List StatementText) (l : List (Option Symbol)) :
    reading (call .handlerStatements) ((statements.flatMap StatementText.symbols).map some ++ l) =
      (reading (call .handlerStatements) l).map fun r => (statements.map StatementText.ast ++ r.1, r.2) := by
  induction statements with
  | nil =>
    change reading (call .handlerStatements) l = _
    rcases reading (call .handlerStatements) l with - | ⟨statements, l'⟩ <;> rfl
  | cons s statements ih =>
    rw [List.flatMap_cons, List.map_append, List.append_assoc, reading_handlerStatements_cons, ih,
      Option.map_map]
    rfl

/-- A handler ends before END. -/
theorem reading_handlerStatements_end (e : Spelled (.keyword .«end»)) (l : List (Option Symbol)) :
    reading (call .handlerStatements) (some e.1 :: l) = some ([], some e.1 :: l) := by
  have hwhen : e.1.tokenType ≠ .keyword .when := by
    rw [e.2]
    decide
  rw [reading_call]
  change reading handlerStatements _ = _
  unfold handlerStatements
  rw [reading_bind_of reading_isAtEnd, if_neg Bool.false_ne_true,
    reading_bind_of (reading_matchKeyword_ne hwhen), if_neg Bool.false_ne_true,
    reading_bind_of reading_peekType, if_pos (congrArg some e.2)]
  rfl

/-- A handler takes the WHEN of the next one. -/
theorem reading_handlerStatements_when (w : Spelled (.keyword .when)) (l : List (Option Symbol)) :
    reading (call .handlerStatements) (some w.1 :: l) = some ([], l) := by
  rw [reading_call]
  change reading handlerStatements _ = _
  unfold handlerStatements
  rw [reading_bind_of reading_isAtEnd, if_neg Bool.false_ne_true,
    reading_bind_of (reading_matchKeyword_of w.2), if_pos rfl]
  rfl

theorem reading_exceptionNames (others : List (Spelled (.keyword .or) × NameText))
    {x : Symbol} (hx : x.tokenType ≠ .keyword .or) (l : List (Option Symbol)) :
    reading (call .exceptionNames) ((HandlerText.otherSymbols others).map some ++ some x :: l) =
      some (others.map fun p => p.2.1.2, some x :: l) := by
  induction others with
  | nil =>
    rw [reading_call]
    change reading exceptionNames (some x :: l) = _
    unfold exceptionNames
    rw [reading_bind_of (reading_matchKeyword_ne hx)]
    rfl
  | cons p others ih =>
    obtain ⟨o, name⟩ := p
    have hsymbols : (HandlerText.otherSymbols ((o, name) :: others)).map some ++ some x :: l =
        some o.1 :: some name.1.1 :: ((HandlerText.otherSymbols others).map some ++ some x :: l) := by
      simp [HandlerText.otherSymbols]
    rw [hsymbols, reading_call]
    change reading exceptionNames _ = _
    unfold exceptionNames
    rw [reading_bind_of (reading_matchKeyword_of o.2), if_pos rfl,
      reading_bind_of (reading_consumeIdentifier (identifier_of_identifierName name.2)),
      reading_bind_of ih]
    rfl

theorem reading_handlers_nil {x : Symbol} (hx : x.tokenType ≠ .keyword .when) (l : List (Option Symbol)) :
    reading (call .handlers) (some x :: l) = some ([], some x :: l) := by
  rw [reading_call]
  change reading handlers _ = _
  unfold handlers
  rw [reading_bind_of (reading_matchKeyword_ne hx)]
  rfl

/-- A handler is read up to where its statements end. -/
theorem reading_handlers_cons (h : HandlerText) {l l' : List (Option Symbol)}
    (hl : reading (call .handlerStatements) l = some ([], l')) :
    reading (call .handlers) (h.symbols.map some ++ l) =
      (reading (call .handlers) l').map fun r => (h.ast :: r.1, r.2) := by
  have hor : h.then.1.tokenType ≠ .keyword .or := by
    rw [h.then.2]
    decide
  have hsymbols : h.symbols.map some ++ l = some h.when.1 :: some h.first.1.1 ::
      ((HandlerText.otherSymbols h.others).map some ++ some h.then.1 ::
        ((h.statements.flatMap StatementText.symbols).map some ++ l)) := by
    simp [HandlerText.symbols]
  have hstatements := reading_handlerStatements h.statements l
  rw [hl] at hstatements
  rw [hsymbols, reading_call]
  change reading handlers _ = _
  unfold handlers
  rw [reading_bind_of (reading_matchKeyword_of h.when.2), if_pos rfl,
    reading_bind_of (reading_consumeIdentifier (identifier_of_identifierName h.first.2)),
    reading_bind_of (reading_exceptionNames h.others hor _),
    reading_bind_of (reading_consumeKeyword_of h.then.2), reading_bind_of hstatements, reading_bind]
  simp only [List.append_nil]
  rcases reading (call .handlers) l' with - | ⟨more, l''⟩ <;> rfl

/-- With at most one handler, the END of the procedure is where the parser looks for it. -/
theorem BodyText.reading_exception (e : ExceptionText) (fin : Spelled (.keyword .«end»)) :
    (Rustgresql.Sql.reading parseExceptionHandler
      (some e.exception.1 :: ((e.handlers.flatMap HandlerText.symbols).map some ++ [some fin.1]))).bind
      (fun r => (Rustgresql.Sql.reading (consumeKeyword .«end» "Expected END") r.2).map
        fun r' => (r.1, r'.2)) =
      if e.handlers.length ≤ 1 then some (BodyText.exceptionAst e, []) else none := by
  have hwhen : fin.1.tokenType ≠ .keyword .when := by
    rw [fin.2]
    decide
  have hend : Rustgresql.Sql.reading (consumeKeyword .«end» "Expected END") [some fin.1] =
      some ((), []) := reading_consumeKeyword_of fin.2
  obtain ⟨exception, handlers⟩ := e
  unfold parseExceptionHandler
  dsimp only
  rw [reading_bind_of (reading_consumeKeyword_of exception.2), reading_bind]
  match handlers with
  | [] =>
    change ((Rustgresql.Sql.reading (call .handlers) [some fin.1]).bind _).bind _ = _
    rw [reading_handlers_nil hwhen]
    simp only [Option.bind_some, reading_pure, hend]
    rfl
  | [h] =>
    rw [List.flatMap_singleton,
      reading_handlers_cons h (reading_handlerStatements_end fin []), reading_handlers_nil hwhen]
    simp only [Option.map_some, Option.bind_some, reading_pure, hend]
    rfl
  | h :: h' :: more =>
    have hname : h'.first.1.1.tokenType.identifierName = some h'.first.1.2 := h'.first.2
    have hne (k : Keyword) : h'.first.1.1.tokenType ≠ .keyword k := by
      intro hk
      rw [hk] at hname
      cases hname
    obtain ⟨rest, hrest⟩ : ∃ rest, (h'.symbols ++ more.flatMap HandlerText.symbols).map some ++
        [some fin.1] = some h'.when.1 :: some h'.first.1.1 :: rest := ⟨_, rfl⟩
    have hnone : Rustgresql.Sql.reading (consumeKeyword .«end» "Expected END")
        (some h'.first.1.1 :: rest) = none := reading_consumeKeyword_ne (hne _)
    rw [List.flatMap_cons, List.flatMap_cons, List.map_append, List.append_assoc, hrest,
      reading_handlers_cons h (reading_handlerStatements_when h'.when _), reading_handlers_nil (hne _),
      if_neg (by simp)]
    simp only [Option.map_some, Option.bind_some, reading_pure, hnone]
    rfl

namespace BodyText

/-- What a body has behind its declarations. -/
def rest (b : BodyText) : List (Option Symbol) :=
  (b.statements.flatMap StatementText.symbols).map some ++
    ((b.exception.elim [] fun e =>
      e.exception.1 :: e.handlers.flatMap HandlerText.symbols).map some ++ [some b.end.1])

theorem reading_blockStatements_end (fin : Spelled (.keyword .«end»)) (l : List (Option Symbol)) :
    Rustgresql.Sql.reading (call .blockStatements) (some fin.1 :: l) = some (([], none), l) := by
  rw [reading_call]
  change Rustgresql.Sql.reading blockStatements _ = _
  unfold blockStatements
  rw [reading_bind_of reading_isAtEnd, if_neg Bool.false_ne_true,
    reading_bind_of (reading_matchKeyword_of fin.2), if_pos rfl]
  rfl

theorem reading_blockStatements_exception (w : Spelled (.keyword .exception))
    (l : List (Option Symbol)) :
    Rustgresql.Sql.reading (call .blockStatements) (some w.1 :: l) =
      (Rustgresql.Sql.reading parseExceptionHandler (some w.1 :: l)).map fun r =>
        (([], some r.1), r.2) := by
  have hend : w.1.tokenType ≠ .keyword .«end» := by
    rw [w.2]
    decide
  rw [reading_call]
  change Rustgresql.Sql.reading blockStatements _ = _
  unfold blockStatements
  rw [reading_bind_of reading_isAtEnd, if_neg Bool.false_ne_true,
    reading_bind_of (reading_matchKeyword_ne hend), if_neg Bool.false_ne_true,
    reading_bind_of reading_peekType, if_pos (congrArg some w.2), reading_bind]
  rcases Rustgresql.Sql.reading parseExceptionHandler (some w.1 :: l) with - | ⟨h, l'⟩ <;> rfl

/-- The first symbol behind the declarations is not DECLARE. -/
theorem exists_rest (b : BodyText) : ∃ y ys, b.rest = some y :: ys ∧ y.tokenType ≠ .keyword .declare := by
  obtain ⟨begin, declare, statements, exception, fin⟩ := b
  rcases statements with - | ⟨s, statements⟩
  · rcases exception with - | e
    · exact ⟨fin.1, [], rfl, by rw [fin.2]; decide⟩
    · exact ⟨e.exception.1, _, rfl, by rw [e.exception.2]; decide⟩
  · obtain ⟨y, ys, hsymbols, hy⟩ := s.exists_symbols
    refine ⟨y, (rest ⟨begin, declare, s :: statements, exception, fin⟩).tail, ?_,
      fun h => hy (by rw [h]; decide)⟩
    rw [rest, List.flatMap_cons, StatementText.symbols, hsymbols]
    rfl

theorem reading_block (b : BodyText) :
    Rustgresql.Sql.reading parseBlockStatement ((b.symbols.tail).map some) =
      (Rustgresql.Sql.reading (call .blockStatements) b.rest).map fun r =>
        (⟨b.declare.elim [] fun d => d.declarations.items.map DeclarationText.ast, r.1.1, r.1.2⟩, r.2) := by
  obtain ⟨y, ys, hrest, hy⟩ := b.exists_rest
  unfold parseBlockStatement
  rcases hdeclare : b.declare with - | d
  · have hsymbols : (b.symbols.tail).map some = b.rest := by
      simp [symbols, rest, hdeclare]
    rw [hsymbols, hrest, reading_bind_of (reading_matchKeyword_ne hy), if_neg Bool.false_ne_true,
      reading_bind_of (reading_pure _ _), reading_bind]
    rcases Rustgresql.Sql.reading (call .blockStatements) (some y :: ys) with - | ⟨⟨statements, h⟩, l⟩ <;> rfl
  · have hsymbols : (b.symbols.tail).map some = some d.declare.1 ::
        ((d.declarations.symbols DeclarationText.symbols).map some ++ some d.semicolon.1 :: b.rest) := by
      simp [symbols, rest, hdeclare]
    have hlist : Rustgresql.Sql.reading (commaSeparated (i := .declaration) parseDeclaration)
        ((d.declarations.symbols DeclarationText.symbols).map some ++ some d.semicolon.1 :: b.rest) =
        some (d.declarations.items.map DeclarationText.ast, some d.semicolon.1 :: b.rest) :=
      reading_commaSeparated (i := .declaration) (P := fun _ => True)
        (fun it _ x hx l => it.reading hx l) d.declarations (fun _ _ => trivial)
        (by rw [d.semicolon.2]; decide) (by rw [d.semicolon.2]; decide) b.rest
    rw [hsymbols, reading_bind_of (reading_matchKeyword_of d.declare.2), if_pos rfl,
      reading_bind_of hlist, reading_bind, reading_blockStatements_semicolon]
    rcases Rustgresql.Sql.reading (call .blockStatements) b.rest with - | ⟨⟨statements, h⟩, l⟩ <;> rfl

/-- The body of a procedure is read as it is written if its END is read once, and else not at all. -/
theorem reading_body (b : BodyText) (w : Spelled (.keyword .«as»)) [Decidable b.EndsOnce] :
    Rustgresql.Sql.reading parseBody (some w.1 :: b.symbols.map some) =
      if b.EndsOnce then some (b.ast, []) else none := by
  have hsymbols : b.symbols.map some = some b.begin.1 :: (b.symbols.tail).map some := rfl
  unfold parseBody
  rw [hsymbols, reading_bind_of (reading_consumeKeyword_of w.2),
    reading_bind_of (reading_consumeKeyword_of b.begin.2), reading_bind, reading_block, rest,
    reading_blockStatements]
  rcases hexception : b.exception with - | e
  · -- the block has taken the END
    have honce : ¬ b.EndsOnce := by
      rintro ⟨e, he, -⟩
      rw [hexception] at he
      cases he
    have hend := reading_blockStatements_end b.end []
    simp only [Option.elim_none, List.map_nil, List.nil_append, hend, if_neg honce]
    rfl
  · have honce : b.EndsOnce ↔ e.handlers.length ≤ 1 := by
      simp [EndsOnce, hexception]
    have h := reading_exception e b.end
    have hast : b.ast = ⟨b.declare.elim [] fun d => d.declarations.items.map DeclarationText.ast,
        b.statements.map StatementText.ast, some (exceptionAst e)⟩ := by
      rw [ast, hexception]
      rfl
    have hblock := reading_blockStatements_exception e.exception
      ((e.handlers.flatMap HandlerText.symbols).map some ++ [some b.end.1])
    simp only [Option.elim_some, List.map_cons, List.cons_append, honce, hast]
    rcases hread : Rustgresql.Sql.reading parseExceptionHandler
      (some e.exception.1 :: ((e.handlers.flatMap HandlerText.symbols).map some ++ [some b.end.1])) with
      - | ⟨handler, l⟩
    · rw [hread] at h hblock
      rw [hblock]
      split at h
      · cases h
      · next hlength =>
        rw [if_neg hlength]
        rfl
    · rw [hread] at h hblock
      rw [hblock]
      simp only [Option.map_some, Option.bind_some, List.append_nil, reading_bind] at h ⊢
      rcases hconsume : Rustgresql.Sql.reading (consumeKeyword .«end» "Expected END") l with - | ⟨⟨⟩, l'⟩
      · rw [hconsume] at h
        split at h
        · cases h
        · next hlength =>
          rw [if_neg hlength]
          rfl
      · rw [hconsume] at h
        split at h
        · next hlength =>
          cases h
          rw [if_pos hlength]
          rfl
        · cases h

end BodyText

/-! ## Statements -/

namespace ProcedureText

/-- What is behind the opening parenthesis, up to AS. -/
def afterParen (t : ProcedureText) : List (Option Symbol) :=
  (t.parameters.elim [] (ListText.symbols ParameterText.symbols)).map some ++ some t.rightParen.1 ::
    (t.clauses.symbols.map some ++ some t.as.1 :: t.body.symbols.map some)

theorem exists_symbols (p : ParameterText) :
    ∃ y ys, p.symbols = y :: ys ∧ y.tokenType ≠ .mark .rightParen := by
  obtain ⟨mode, typed, hname, hdefault⟩ := p
  cases mode with
  | default =>
    refine ⟨typed.word, _, rfl, fun h => ?_⟩
    have hword := typed.hname
    rw [h] at hword
    cases hword
  | «in» y h => exact ⟨y.1, _, rfl, by rw [y.2]; decide⟩
  | out y name hy h => exact ⟨y, _, rfl, by rw [hy]; exact nofun⟩
  | inOut y name hy h => exact ⟨y, _, rfl, by rw [hy]; exact nofun⟩

theorem reading_parseParameters (t : ProcedureText) {L : ListText ParameterText}
    (hL : t.parameters = some L) : reading parseParameters (some t.leftParen.1 :: t.afterParen) =
      (reading (commaSeparated (i := .procedureParameter) parseProcedureParameter) t.afterParen).bind
        fun r => (reading (consumeMark .rightParen "Expected ')' after parameter list") r.2).map
          fun r' => (r.1, r'.2) := by
  obtain ⟨y, ys, hsymbols, hy⟩ := exists_symbols L.first
  obtain ⟨rest, hrest⟩ : ∃ rest, t.afterParen = some y :: rest := by
    refine ⟨t.afterParen.tail, ?_⟩
    rw [afterParen, hL, Option.elim_some, ListText.symbols, hsymbols]
    rfl
  unfold parseParameters
  rw [reading_bind_of (reading_matchMark_of t.leftParen.2), if_pos rfl, hrest,
    reading_bind_of (reading_matchMark_ne hy), if_neg Bool.false_ne_true, reading_bind]
  congr 1
  funext r
  rw [reading_bind]
  rcases reading (consumeMark .rightParen "Expected ')' after parameter list") r.2 with - | r' <;> rfl

theorem reading_parameters (t : ProcedureText) (h : ∀ p ∈ t.items, WithoutIn p) :
    reading parseParameters (some t.leftParen.1 :: t.afterParen) =
      some (t.items.map ParameterText.ast,
        t.clauses.symbols.map some ++ some t.as.1 :: t.body.symbols.map some) := by
  rcases hL : t.parameters with - | L
  · have hafter : t.afterParen = some t.rightParen.1 ::
        (t.clauses.symbols.map some ++ some t.as.1 :: t.body.symbols.map some) := by
      rw [afterParen, hL]
      rfl
    unfold parseParameters
    rw [reading_bind_of (reading_matchMark_of t.leftParen.2), if_pos rfl, hafter,
      reading_bind_of (reading_matchMark_of t.rightParen.2), if_pos rfl, items, hL]
    rfl
  · have hitems : t.items = L.items := by
      rw [items, hL]
      rfl
    have hlist := reading_commaSeparated (i := .procedureParameter) (P := WithoutIn)
      (fun it hit _ hx l => it.reading hit hx l) L (hitems ▸ h) (x := t.rightParen.1)
      (by rw [t.rightParen.2]; decide) (by rw [t.rightParen.2]; decide)
      (t.clauses.symbols.map some ++ some t.as.1 :: t.body.symbols.map some)
    have hafter : t.afterParen = (L.symbols ParameterText.symbols).map some ++ some t.rightParen.1 ::
        (t.clauses.symbols.map some ++ some t.as.1 :: t.body.symbols.map some) := by
      rw [afterParen, hL]
      rfl
    have hparse : reading (commaSeparated (i := .procedureParameter) parseProcedureParameter)
        t.afterParen = some (L.items.map ParameterText.ast, some t.rightParen.1 ::
          (t.clauses.symbols.map some ++ some t.as.1 :: t.body.symbols.map some)) := by
      rw [hafter]
      exact hlist
    rw [reading_parseParameters t hL, hparse, Option.bind_some,
      reading_consumeMark_of t.rightParen.2, hitems]
    rfl

theorem forall_withoutIn (t : ProcedureText) {l : List (Option Symbol)}
    (h : reading parseParameters (some t.leftParen.1 :: t.afterParen) =
      some (t.items.map ParameterText.ast, l)) : ∀ p ∈ t.items, WithoutIn p := by
  rcases hL : t.parameters with - | L
  · rw [items, hL]
    exact fun _ hp => absurd hp List.not_mem_nil
  · have hitems : t.items = L.items := by
      rw [items, hL]
      rfl
    have hafter : t.afterParen = (L.symbols ParameterText.symbols).map some ++ some t.rightParen.1 ::
        (t.clauses.symbols.map some ++ some t.as.1 :: t.body.symbols.map some) := by
      rw [afterParen, hL]
      rfl
    rw [reading_parseParameters t hL] at h
    obtain ⟨⟨as, l₁⟩, has, h⟩ := Option.bind_eq_some_iff.mp h
    obtain ⟨r', -, h⟩ := Option.map_eq_some_iff.mp h
    have has' : as = L.items.map ParameterText.ast := by
      rw [← hitems]
      exact (Prod.mk.inj h).1
    rw [hafter, has'] at has
    rw [hitems]
    exact forall_of_reading_commaSeparated (i := .procedureParameter) (P := WithoutIn)
      (fun it hit _ hx l => it.reading hit hx l) (fun it hit _ _ _ hread => it.name_ne hit hread) L has

/-- The parts of a CREATE PROCEDURE statement, read one after the other. -/
theorem reading_statement (t : ProcedureText) : reading parseStatement (t.symbols.map some) =
    (reading parseParameters (some t.leftParen.1 :: t.afterParen)).bind fun r =>
      (reading parseClauses r.2).bind fun c =>
        (reading parseBody c.2).map fun b =>
          (.createProcedure t.name.1.2 r.1 c.1.1 b.1 false c.1.2, b.2) := by
  have hsymbols : t.symbols.map some = some t.create.1 :: some t.procedure.1 :: some t.name.1.1 ::
      some t.leftParen.1 :: t.afterParen := by
    simp [symbols, afterParen]
  have hunique : t.procedure.1.tokenType ≠ .keyword .unique := by
    rw [t.procedure.2]
    decide
  have hor : t.name.1.1.tokenType ≠ .keyword .or := by
    intro h
    have hname : t.name.1.1.tokenType.identifierName = some t.name.1.2 := t.name.2
    rw [h] at hname
    cases hname
  have hreplace : reading parseOrReplace (some t.name.1.1 :: some t.leftParen.1 :: t.afterParen) =
      some (false, some t.name.1.1 :: some t.leftParen.1 :: t.afterParen) := by
    unfold parseOrReplace
    rw [reading_bind_of (reading_matchKeyword_ne hor)]
    rfl
  rw [hsymbols]
  unfold parseStatement
  rw [reading_bind_of reading_peekType]
  simp only [t.create.2]
  unfold parseCreate
  rw [reading_bind_of (reading_consumeKeyword_of t.create.2),
    reading_bind_of (reading_matchKeyword_ne hunique), reading_bind_of reading_peekType]
  simp only [t.procedure.2]
  unfold parseCreateProcedure
  rw [reading_bind_of (reading_consumeKeyword_of t.procedure.2), reading_bind_of hreplace,
    reading_bind_of (reading_consumeIdentifier (identifier_of_identifierName t.name.2))]
  unfold parseClauses
  simp only [reading_bind, reading_pure, Option.bind_assoc, Option.bind_some, Option.map_eq_bind]
  rfl

theorem reading_statement_of (t : ProcedureText) (hin : ∀ p ∈ t.items, WithoutIn p)
    (honce : t.body.EndsOnce) : reading parseStatement (t.symbols.map some) = some (t.ast, []) := by
  classical
  have hclauses := t.clauses.reading (x := t.as.1) (by rw [t.as.2]; decide) (t.body.symbols.map some)
  rw [reading_statement, t.reading_parameters hin, Option.bind_some, hclauses, Option.bind_some,
    t.body.reading_body t.as, if_pos honce]
  rfl

theorem of_reading_statement (t : ProcedureText) {l : List (Option Symbol)}
    (h : reading parseStatement (t.symbols.map some) = some (t.ast, l)) :
    (∀ p ∈ t.items, WithoutIn p) ∧ t.body.EndsOnce := by
  classical
  have hclauses := t.clauses.reading (x := t.as.1) (by rw [t.as.2]; decide) (t.body.symbols.map some)
  rw [reading_statement] at h
  obtain ⟨⟨parameters, l₁⟩, hparameters, h⟩ := Option.bind_eq_some_iff.mp h
  obtain ⟨⟨clauses, l₂⟩, hc, h⟩ := Option.bind_eq_some_iff.mp h
  obtain ⟨⟨body, l₃⟩, hbody, h⟩ := Option.map_eq_some_iff.mp h
  have hast := (Prod.mk.inj h).1
  simp only [ast, Statement.createProcedure.injEq, true_and] at hast
  rw [hast.1] at hparameters
  have hin := t.forall_withoutIn hparameters
  refine ⟨hin, ?_⟩
  cases (t.reading_parameters hin).symm.trans hparameters
  cases hclauses.symm.trans hc
  rw [t.body.reading_body t.as] at hbody
  by_contra honce
  rw [if_neg honce] at hbody
  cases hbody

theorem of_parseSql (t : ProcedureText) {sql : Text} (hsql : Scans sql (t.symbols.map some) [])
    (h : parseSql sql = .ok [t.ast]) : (∀ p ∈ t.items, WithoutIn p) ∧ t.body.EndsOnce := by
  obtain ⟨xs, hxs, hscript⟩ := parseSql_eq_ok.mp h
  obtain rfl := hxs.unique hsql
  obtain ⟨rest, hrest⟩ : ∃ rest, t.symbols.map some = some t.create.1 :: rest := ⟨_, rfl⟩
  rw [hrest] at hscript
  obtain ⟨st, hst, hsts⟩ | ⟨st, x, l, sts, hst, -, -, hsts⟩ := script_symbol.mp hscript
  all_goals
    cases hsts
    rw [← hrest, parses_def] at hst
    exact t.of_reading_statement hst

/-- The parser reads a CREATE PROCEDURE statement as it is written if and only if no parameter has the
word IN, and the body has an exception section with at most one handler. -/
theorem parseSql_eq_iff (t : ProcedureText) {sql : Text} (hsql : Scans sql (t.symbols.map some) []) :
    parseSql sql = .ok [t.ast] ↔ (∀ p ∈ t.items, WithoutIn p) ∧ t.body.EndsOnce := by
  constructor
  · exact t.of_parseSql hsql
  · rintro ⟨hin, honce⟩
    have hst : parses .statement (t.symbols.map some) = some (t.ast, []) :=
      (parses_def .statement _).trans (t.reading_statement_of hin honce)
    exact parseSql_eq_ok.mpr ⟨_, hsql, .last hst⟩

end ProcedureText

end Texts

/-! ## Written procedures -/

section Written

theorem reading_arraySuffix [Std] {x : Symbol} (hx : x.tokenType ≠ .mark .leftBracket)
    (kind : DataTypeKind) (l : List (Option Symbol)) :
    reading (call (.arraySuffix kind)) (some x :: l) = some (kind, some x :: l) := by
  rw [reading_call]
  change reading (arraySuffix kind) _ = _
  unfold arraySuffix
  rw [reading_bind_of (reading_matchMark_ne hx)]
  rfl

def keywordText (k : Keyword) : Spelled (.keyword k) := ⟨⟨.keyword k, k.text⟩, rfl⟩

def markText (m : Mark) : Spelled (.mark m) := ⟨⟨.mark m, m.text⟩, rfl⟩

def identifierSymbol (name : Text) : Symbol := ⟨.identifier name, name⟩

/-- The type INTEGER -/
def integerText : letI := Std.ascii; Fragment parseDataType (.keyword .default :: itemEnds) :=
  letI := Std.ascii
  { symbols := [identifierSymbol ['I', 'N', 'T', 'E', 'G', 'E', 'R']]
    value := .integer
    reads := by
      intro x hx
      have hbracket : x.tokenType ≠ .mark .leftBracket := by
        intro h
        rw [h] at hx
        revert hx
        decide
      exact reading_arraySuffix hbracket .integer [] }

/-- LANGUAGE SQL -/
def languageText : letI := Std.ascii; Fragment parseClauses [.keyword .«as»] :=
  letI := Std.ascii
  { symbols := [(keywordText .language).1, identifierSymbol ['S', 'Q', 'L']]
    value := (.sql, false)
    reads := by
      intro x hx
      have has : x.tokenType = .keyword .«as» := List.mem_singleton.mp hx
      have hsecurity : x.tokenType ≠ .keyword .security := by
        rw [has]
        decide
      have hlanguage : reading parseLanguage [some (keywordText .language).1,
          some (identifierSymbol ['S', 'Q', 'L']), some x] = some (.sql, [some x]) := rfl
      have hclause : reading parseSecurity [some x] = some (false, [some x]) :=
        reading_bind_of (reading_matchKeyword_ne hsecurity) _
      exact (reading_bind_of hlanguage _).trans (reading_bind_of hclause _) }

/-- The parameter OUT a INTEGER -/
def outParameter : @ParameterText Std.ascii :=
  letI := Std.ascii
  { mode := .out (identifierSymbol ['O', 'U', 'T']) ['O', 'U', 'T'] rfl rfl
    typed := ⟨identifierSymbol ['a'], ['a'], rfl, integerText, none⟩
    hname := nofun
    hdefault := fun _ => rfl }

/-- CREATE PROCEDURE p (OUT a INTEGER) LANGUAGE SQL AS BEGIN END, with or without an exception section -/
def procedureText (exception : Option (@ExceptionText Std.ascii)) : @ProcedureText Std.ascii :=
  letI := Std.ascii
  { create := keywordText .create
    procedure := keywordText .procedure
    name := ⟨(identifierSymbol ['p'], ['p']), rfl⟩
    leftParen := markText .leftParen
    parameters := some ⟨outParameter, []⟩
    rightParen := markText .rightParen
    clauses := languageText
    «as» := keywordText .«as»
    body := ⟨keywordText .begin, none, [], exception, keywordText .«end»⟩ }

/-- The tokens of this statement -/
def procedureLexemes (hasException : Bool) : List (@Lexeme Unicode.ascii) :=
  letI := Unicode.ascii
  [.keyword .create rfl, .keyword .procedure rfl,
    .identifier ['p'] ⟨⟨'p', [], rfl, .inl rfl⟩, List.all_eq_true.mp rfl, rfl⟩, .mark .leftParen,
    .identifier ['O', 'U', 'T'] ⟨⟨'O', _, rfl, .inl rfl⟩, List.all_eq_true.mp rfl, rfl⟩,
    .identifier ['a'] ⟨⟨'a', [], rfl, .inl rfl⟩, List.all_eq_true.mp rfl, rfl⟩,
    .identifier ['I', 'N', 'T', 'E', 'G', 'E', 'R'] ⟨⟨'I', _, rfl, .inl rfl⟩, List.all_eq_true.mp rfl, rfl⟩,
    .mark .rightParen, .keyword .language rfl,
    .identifier ['S', 'Q', 'L'] ⟨⟨'S', _, rfl, .inl rfl⟩, List.all_eq_true.mp rfl, rfl⟩,
    .keyword .«as» rfl, .keyword .begin rfl] ++
  (if hasException then [.keyword .exception rfl] else []) ++ [.keyword .«end» rfl]

theorem scans_procedure : letI := Std.ascii
    Scans (write (procedureLexemes false)) ((procedureText none).symbols.map some) [] := by
  let _ := Std.ascii
  exact (scans_write _).mpr ⟨by decide, rfl⟩

/-- A procedure with an empty exception section -/
theorem parseSql_exception : letI := Std.ascii
    parseSql (write (procedureLexemes true)) =
      .ok [(procedureText (some ⟨keywordText .exception, []⟩)).ast] := by
  let _ := Std.ascii
  have hsql : Scans (write (procedureLexemes true))
      ((procedureText (some ⟨keywordText .exception, []⟩)).symbols.map some) [] :=
    (scans_write _).mpr ⟨by decide, rfl⟩
  refine (ProcedureText.parseSql_eq_iff _ hsql).mpr ⟨?_, _, rfl, Nat.zero_le _⟩
  intro p hp
  obtain rfl := List.mem_singleton.mp hp
  exact nofun

/-- A procedure without an exception section is not accepted. -/
theorem parseSql_noException :
    ¬ ∀ (_ : Std) (t : ProcedureText) (sql : Text), Scans sql (t.symbols.map some) [] →
      parseSql sql = .ok [t.ast] := by
  intro h
  let _ := Std.ascii
  obtain ⟨-, e, he, -⟩ := (procedureText none).of_parseSql scans_procedure
    (h _ _ _ scans_procedure)
  cases he

end Written

end Rustgresql.Sql
