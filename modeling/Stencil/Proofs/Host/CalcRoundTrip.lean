import Stencil.Proofs.Host.CalcParser
import Stencil.Proofs.Template.RoundTrip

/-!
# Calculator code is read back as it was

Statements that were read from calculator code are written with the tokens they were read from,
and so they are read back. Statements are written with nothing between them: what keeps the closing
brace of a block from making a bracket with what follows is that no statement is written with a
closing brace first. Strings are written between double quotes, whatever is inside, so the
statements must hold no string with a double quote.

* `scan_expr`, `scan_spliced`, `scan_stmt` and `scan_statements` scan what was written.
* `parse_statementSources_of_parse` is the round trip, of the tokens and of the tree.
-/

namespace Stencil.Calc

/-! ## String literals -/

mutual

/-- The values of the string literals in an expression. -/
def Expr.strings : Expr → List String
  | .name _ | .int _ => []
  | .str value => [value]
  | .group items => itemStrings items
  | .sum operands => operandStrings operands

/-- The values of the string literals in a spliced expression. -/
def splicedStrings : SplicedExpr → List String
  | .host expression => expression.strings
  | .interpolation inner => splicedStrings inner

/-- The values of the string literals in the items of a group. -/
def itemStrings : List SplicedExpr → List String
  | [] => []
  | item :: rest => splicedStrings item ++ itemStrings rest

/-- The values of the string literals in the operands of a sum. -/
def operandStrings : List Expr → List String
  | [] => []
  | operand :: rest => operand.strings ++ operandStrings rest

end

mutual

/-- The values of the string literals in a statement. -/
def Stmt.strings : Stmt → List String
  | .let_ _ value => splicedStrings value
  | .block body => statementsStrings body
  | .expr expression => splicedStrings expression

/-- The values of the string literals in a spliced statement. -/
def statementStrings : SplicedStmt → List String
  | .plain statement => statement.strings
  | .interpolation e => splicedStrings e
  | .forIn _ iterable body => splicedStrings iterable ++ statementsStrings body
  | .join _ iterable separator body =>
    splicedStrings iterable ++ (splicedStrings separator ++ statementsStrings body)

/-- The values of the string literals in a sequence of spliced statements. -/
def statementsStrings : List SplicedStmt → List String
  | [] => []
  | statement :: rest => statementStrings statement ++ statementsStrings rest

end

/-! ## Expressions -/

/-- No string holds a double quote. -/
def LacksQuotes (values : List String) : Prop :=
  ∀ value ∈ values, '"' ∉ value.toList

theorem lacksQuotes_append_iff {values others : List String} :
    LacksQuotes (values ++ others) ↔ LacksQuotes values ∧ LacksQuotes others := by
  simp only [LacksQuotes, List.mem_append, or_imp, forall_and]

theorem endsWord_semicolon (rest : List Char) : EndsWord (';' :: rest) := rfl

theorem toList_itemSources_cons (item : SplicedExpr) (items : List SplicedExpr)
    (rest : List Char) :
    (itemSources false (item :: items)).toList ++ rest =
      ',' :: ' ' :: ((splicedSource item).toList ++
        ((itemSources false items).toList ++ rest)) := by
  simp [itemSources]

theorem toList_operandSources_cons (operand : Expr) (operands : List Expr) (rest : List Char) :
    (operandSources false (operand :: operands)).toList ++ rest =
      ' ' :: '+' :: ' ' :: (operand.source.toList ++
        ((operandSources false operands).toList ++ rest)) := by
  simp [operandSources]

/-- A word ends before the comma of the next item. -/
theorem endsWord_itemSources {rest : List Char} (hr : EndsWord rest)
    (items : List SplicedExpr) : EndsWord ((itemSources false items).toList ++ rest) := by
  cases items with
  | nil => exact hr
  | cons item items =>
    rw [toList_itemSources_cons]
    exact endsWord_comma _

/-- A word ends before the space of the next plus sign. -/
theorem endsWord_operandSources {rest : List Char} (hr : EndsWord rest) (operands : List Expr) :
    EndsWord ((operandSources false operands).toList ++ rest) := by
  cases operands with
  | nil => exact hr
  | cons operand operands =>
    rw [toList_operandSources_cons]
    exact endsWord_space _

mutual

theorem scan_expr {e : Expr} (h : ∀ t ∈ e.tokens, t.WellFormed) (hq : LacksQuotes e.strings)
    {rest : List Char} (hr : EndsWord rest) :
    scan .code .code (e.source.toList ++ rest) = e.tokens ++ scan .code .code rest := by
  match e with
  | .name name => exact scan_identifier (h _ (List.mem_singleton_self _)) hr
  | .int digits => exact scan_integer (h _ (List.mem_singleton_self _)) hr
  | .str value =>
    have hsource : (Expr.str value).source.toList ++ rest =
        '"' :: (value.toList ++ '"' :: rest) := by
      simp [Expr.source]
    rw [hsource]
    exact scan_quoted (.inl rfl) (hq value (List.mem_singleton_self _))
  | .group items =>
    have hitems : ∀ t ∈ itemTokens true items, t.WellFormed := fun t ht =>
      h t (by simp [Expr.tokens, ht])
    have hsource : (Expr.group items).source.toList ++ rest =
        '(' :: ((itemSources true items).toList ++ ')' :: rest) := by
      simp [Expr.source]
    rw [hsource, scan_openParen, scan_items hitems hq (endsWord_closeParen rest), scan_closeParen]
    simp [Expr.tokens]
  | .sum operands => exact scan_operands h hq hr

theorem scan_spliced {e : SplicedExpr} (h : ∀ t ∈ splicedTokens e, t.WellFormed)
    (hq : LacksQuotes (splicedStrings e)) {rest : List Char} (hr : EndsWord rest) :
    scan .code .code ((splicedSource e).toList ++ rest) =
      splicedTokens e ++ scan .code .code rest := by
  match e with
  | .host e => exact scan_expr h hq hr
  | .interpolation inner =>
    have hinner : ∀ t ∈ splicedTokens inner, t.WellFormed := fun t ht =>
      h t (by simp [splicedTokens, ht])
    rw [splicedSource, toList_interpolationSource,
      scan_interpolation fun hr => scan_spliced hinner hq hr]
    simp [splicedTokens]

/-- The items of a group end with a word, or before the comma of the next one. -/
theorem scan_items {first : Bool} {items : List SplicedExpr}
    (h : ∀ t ∈ itemTokens first items, t.WellFormed) (hq : LacksQuotes (itemStrings items))
    {rest : List Char} (hr : EndsWord rest) :
    scan .code .code ((itemSources first items).toList ++ rest) =
      itemTokens first items ++ scan .code .code rest := by
  match items with
  | [] => rfl
  | item :: items =>
    obtain ⟨hqitem, hqitems⟩ := lacksQuotes_append_iff.1 hq
    have hitem : ∀ t ∈ splicedTokens item, t.WellFormed := fun t ht =>
      h t (by simp [itemTokens, ht])
    have hitems : ∀ t ∈ itemTokens false items, t.WellFormed := fun t ht =>
      h t (by simp [itemTokens, ht])
    have hscan : scan .code .code
        ((splicedSource item).toList ++ ((itemSources false items).toList ++ rest)) =
        splicedTokens item ++ (itemTokens false items ++ scan .code .code rest) := by
      rw [scan_spliced hitem hqitem (endsWord_itemSources hr items), scan_items hitems hqitems hr]
    cases first with
    | true => simpa [itemSources, itemTokens] using hscan
    | false =>
      rw [toList_itemSources_cons, scan_comma, scan_space, hscan]
      simp [itemTokens]

/-- The operands of a sum end with a word, or before the space of the next plus sign. -/
theorem scan_operands {first : Bool} {operands : List Expr}
    (h : ∀ t ∈ operandTokens first operands, t.WellFormed)
    (hq : LacksQuotes (operandStrings operands)) {rest : List Char} (hr : EndsWord rest) :
    scan .code .code ((operandSources first operands).toList ++ rest) =
      operandTokens first operands ++ scan .code .code rest := by
  match operands with
  | [] => rfl
  | operand :: operands =>
    obtain ⟨hqoperand, hqoperands⟩ := lacksQuotes_append_iff.1 hq
    have hoperand : ∀ t ∈ operand.tokens, t.WellFormed := fun t ht =>
      h t (by simp [operandTokens, ht])
    have hoperands : ∀ t ∈ operandTokens false operands, t.WellFormed := fun t ht =>
      h t (by simp [operandTokens, ht])
    have hscan : scan .code .code
        (operand.source.toList ++ ((operandSources false operands).toList ++ rest)) =
        operand.tokens ++ (operandTokens false operands ++ scan .code .code rest) := by
      rw [scan_expr hoperand hqoperand (endsWord_operandSources hr operands),
        scan_operands hoperands hqoperands hr]
    cases first with
    | true => simpa [operandSources, operandTokens] using hscan
    | false =>
      have hplus : '+' ∈ signs := by decide
      rw [toList_operandSources_cons, scan_space, scan_sign hplus rfl, scan_space, hscan]
      simp [operandTokens]

end

/-! ## What follows a statement -/

/-- Input that no closing brace begins, so that a closing brace before it is no bracket. -/
def EndsStatement (rest : List Char) : Prop :=
  rest.head? ≠ some '\x7d'

theorem endsStatement_cons {c : Char} (h : c ≠ '\x7d') (rest : List Char) :
    EndsStatement (c :: rest) := by
  simpa [EndsStatement] using h

theorem scan_closeBrace {rest : List Char} (hr : EndsStatement rest) :
    scan .code .code ('\x7d' :: rest) = .symbol "\x7d" :: scan .code .code rest := by
  have hbrace : '\x7d' ∈ signs := by decide
  refine scan_sign hbrace ?_
  cases rest with
  | nil => rfl
  | cons c rest =>
    have hc : c ≠ '\x7d' := by simpa [EndsStatement] using hr
    unfold startsBracket
    split <;> simp_all

theorem endsStatement_operand {e : Expr} (he : e.IsOperand) (h : ∀ t ∈ e.tokens, t.WellFormed)
    (rest : List Char) : EndsStatement (e.source.toList ++ rest) := by
  cases e with
  | name name =>
    have hname : IsIdentifier name.toList := (h _ (List.mem_singleton_self _)).1
    rw [Expr.source]
    cases hchars : name.toList with
    | nil => simp [hchars, IsIdentifier] at hname
    | cons c chars =>
      rw [hchars] at hname
      refine endsStatement_cons ?_ _
      rintro rfl
      exact absurd hname.1 (by decide)
  | int digits =>
    have hdigits : IsInteger digits.toList := h _ (List.mem_singleton_self _)
    rw [Expr.source]
    cases hchars : digits.toList with
    | nil => exact absurd hchars hdigits.1
    | cons c chars =>
      refine endsStatement_cons ?_ _
      rintro rfl
      exact absurd (hdigits.2 '\x7d' (by simp [hchars])) (by decide)
  | str value => simp [EndsStatement, Expr.source]
  | group items => simp [EndsStatement, Expr.source]
  | sum operands => cases he.1

theorem endsStatement_spliced {e : SplicedExpr} (he : SplicedCanonical e)
    (h : ∀ t ∈ splicedTokens e, t.WellFormed) (rest : List Char) :
    EndsStatement ((splicedSource e).toList ++ rest) := by
  cases e with
  | interpolation inner =>
    rw [splicedSource, toList_interpolationSource]
    exact endsStatement_cons (by decide) _
  | host e =>
    obtain ⟨first, others, hfirst, -, rfl⟩ := Expr.canonical_iff_sumOf.1 he
    have htokens : ∀ t ∈ first.tokens, t.WellFormed := fun t ht =>
      h t (by simp [splicedTokens, Expr.tokens_sumOf, ht])
    have hsource : (sumOf first others).source.toList =
        first.source.toList ++ (operandSources false others).toList := by
      cases others with
      | nil => simp [sumOf, operandSources]
      | cons second others => simp [sumOf, Expr.source, operandSources]
    rw [splicedSource, hsource, List.append_assoc]
    exact endsStatement_operand hfirst htokens _

/-- No statement is written with a closing brace first. -/
theorem endsStatement_statement {s : SplicedStmt} (hs : StatementCanonical s)
    (h : ∀ t ∈ statementTokens s, t.WellFormed) (rest : List Char) :
    EndsStatement ((statementSource s).toList ++ rest) := by
  match s with
  | .plain (.let_ name value) => simp [EndsStatement, statementSource, Stmt.source]
  | .plain (.block body) => simp [EndsStatement, statementSource, Stmt.source]
  | .plain (.expr e) =>
    have he : ∀ t ∈ splicedTokens e, t.WellFormed := fun t ht =>
      h t (by simp [statementTokens, Stmt.tokens, ht])
    have hsource : (statementSource (.plain (.expr e))).toList ++ rest =
        (splicedSource e).toList ++ ';' :: rest := by
      simp [statementSource, Stmt.source]
    rw [hsource]
    exact endsStatement_spliced hs he _
  | .interpolation e =>
    rw [statementSource, toList_interpolationSource]
    exact endsStatement_cons (by decide) _
  | .forIn binder e body =>
    rw [statementSource, toList_forInSource]
    exact endsStatement_cons (by decide) _
  | .join binder e f body =>
    rw [statementSource, toList_joinSource]
    exact endsStatement_cons (by decide) _

/-! ## Statements -/

/-- Behind the statements of a block comes a space. -/
theorem exists_blockSource_eq (body : List SplicedStmt) (rest : List Char) :
    ∃ more, (blockSource body).toList ++ ' ' :: rest = ' ' :: more := by
  cases body with
  | nil => exact ⟨rest, rfl⟩
  | cons s body => simp [blockSource]

mutual

theorem scan_stmt {s : Stmt} (hs : s.Canonical) (h : ∀ t ∈ s.tokens, t.WellFormed)
    (hq : LacksQuotes s.strings) {rest : List Char} (hr : EndsStatement rest) :
    scan .code .code (s.source.toList ++ rest) = s.tokens ++ scan .code .code rest := by
  have hsemicolon : ';' ∈ signs := by decide
  match s with
  | .let_ name value =>
    have hname : (Token.identifier name).WellFormed := h _ (by simp [Stmt.tokens])
    have hvalue : ∀ t ∈ splicedTokens value, t.WellFormed := fun t ht =>
      h t (by simp [Stmt.tokens, ht])
    have hsource : (Stmt.let_ name value).source.toList ++ rest =
        "let".toList ++ ' ' :: (name.toList ++ ' ' :: '=' :: ' ' ::
          ((splicedSource value).toList ++ ';' :: rest)) := by
      simp [Stmt.source]
    have hequals : '=' ∈ signs := by decide
    rw [hsource, scan_identifier wellFormed_let (endsWord_space _), scan_space,
      scan_identifier hname (endsWord_space _), scan_space, scan_sign hequals rfl, scan_space,
      scan_spliced hvalue hq (endsWord_semicolon _), scan_sign hsemicolon rfl]
    simp [Stmt.tokens]
  | .block body =>
    have hbody : ∀ t ∈ statementsTokens body, t.WellFormed := fun t ht =>
      h t (by simp [Stmt.tokens, ht])
    have hsource : (Stmt.block body).source.toList ++ rest =
        '\x7b' :: ((blockSource body).toList ++ ' ' :: '\x7d' :: rest) := by
      simp [Stmt.source]
    have hopen : startsBracket ('\x7b' :: ((blockSource body).toList ++ ' ' :: '\x7d' :: rest)) =
        false := by
      obtain ⟨more, hmore⟩ := exists_blockSource_eq body ('\x7d' :: rest)
      rw [hmore]
      rfl
    have hbrace : '\x7b' ∈ signs := by decide
    rw [hsource, scan_sign hbrace hopen, scan_block hs hbody hq, scan_closeBrace hr]
    simp [Stmt.tokens]
  | .expr e =>
    have he : ∀ t ∈ splicedTokens e, t.WellFormed := fun t ht =>
      h t (by simp [Stmt.tokens, ht])
    have hsource : (Stmt.expr e).source.toList ++ rest =
        (splicedSource e).toList ++ ';' :: rest := by
      simp [Stmt.source]
    rw [hsource, scan_spliced he hq (endsWord_semicolon _), scan_sign hsemicolon rfl]
    simp [Stmt.tokens]

theorem scan_statement {s : SplicedStmt} (hs : StatementCanonical s)
    (h : ∀ t ∈ statementTokens s, t.WellFormed) (hq : LacksQuotes (statementStrings s))
    {rest : List Char} (hr : EndsStatement rest) :
    scan .code .code ((statementSource s).toList ++ rest) =
      statementTokens s ++ scan .code .code rest := by
  match s with
  | .plain s => exact scan_stmt hs h hq hr
  | .interpolation e =>
    have he : ∀ t ∈ splicedTokens e, t.WellFormed := fun t ht =>
      h t (by simp [statementTokens, ht])
    rw [statementSource, toList_interpolationSource,
      scan_interpolation fun hr => scan_spliced he hq hr]
    simp [statementTokens]
  | .forIn binder e body =>
    obtain ⟨hheader, hbody⟩ := TextStatement.wellFormed_of_mem_block h
    obtain ⟨hqe, hqbody⟩ := lacksQuotes_append_iff.1 hq
    have hb : ∀ t ∈ binder.tokens, t.WellFormed := fun t ht =>
      hheader t (by simp [forInTokens, ht])
    have he : ∀ t ∈ splicedTokens e, t.WellFormed := fun t ht =>
      hheader t (by simp [forInTokens, ht])
    rw [statementSource, toList_forInSource,
      scan_forIn (scan_pattern hb) fun hr => scan_spliced he hqe hr,
      scan_statements hs.2 hbody hqbody (endsStatement_cons (by decide) _), scan_end]
    simp [statementTokens, Construct.blockTokens, Construct.closing]
  | .join binder e f body =>
    obtain ⟨hheader, hbody⟩ := TextStatement.wellFormed_of_mem_block h
    obtain ⟨hqe, hqrest⟩ := lacksQuotes_append_iff.1 hq
    obtain ⟨hqf, hqbody⟩ := lacksQuotes_append_iff.1 hqrest
    have hb : ∀ t ∈ binder.tokens, t.WellFormed := fun t ht =>
      hheader t (by simp [joinTokens, ht])
    have he : ∀ t ∈ splicedTokens e, t.WellFormed := fun t ht =>
      hheader t (by simp [joinTokens, ht])
    have hf : ∀ t ∈ splicedTokens f, t.WellFormed := fun t ht =>
      hheader t (by simp [joinTokens, ht])
    rw [statementSource, toList_joinSource,
      scan_join (scan_pattern hb) (fun hr => scan_spliced he hqe hr)
        fun hr => scan_spliced hf hqf hr,
      scan_statements hs.2 hbody hqbody (endsStatement_cons (by decide) _), scan_end]
    simp [statementTokens, Construct.blockTokens, Construct.closing]

/-- In a block each statement ends before a space. -/
theorem scan_block {body : List SplicedStmt} (hs : StatementsCanonical body)
    (h : ∀ t ∈ statementsTokens body, t.WellFormed) (hq : LacksQuotes (statementsStrings body))
    {rest : List Char} :
    scan .code .code ((blockSource body).toList ++ ' ' :: rest) =
      statementsTokens body ++ scan .code .code rest := by
  match body with
  | [] => exact scan_space rest
  | s :: body =>
    obtain ⟨hqs, hqbody⟩ := lacksQuotes_append_iff.1 hq
    have hws : ∀ t ∈ statementTokens s, t.WellFormed := fun t ht =>
      h t (by simp [statementsTokens, ht])
    have hwbody : ∀ t ∈ statementsTokens body, t.WellFormed := fun t ht =>
      h t (by simp [statementsTokens, ht])
    have hsource : (blockSource (s :: body)).toList ++ ' ' :: rest =
        ' ' :: ((statementSource s).toList ++ ((blockSource body).toList ++ ' ' :: rest)) := by
      simp [blockSource]
    have hends : EndsStatement ((blockSource body).toList ++ ' ' :: rest) := by
      obtain ⟨more, hmore⟩ := exists_blockSource_eq body rest
      rw [hmore]
      exact endsStatement_cons (by decide) _
    rw [hsource, scan_space, scan_statement hs.1 hws hqs hends, scan_block hs.2 hwbody hqbody,
      statementsTokens, List.append_assoc]

/-- In a sequence each statement ends before the next one. -/
theorem scan_statements {body : List SplicedStmt} (hs : StatementsCanonical body)
    (h : ∀ t ∈ statementsTokens body, t.WellFormed) (hq : LacksQuotes (statementsStrings body))
    {rest : List Char} (hr : EndsStatement rest) :
    scan .code .code ((statementSources body).toList ++ rest) =
      statementsTokens body ++ scan .code .code rest := by
  match body with
  | [] => rfl
  | s :: body =>
    obtain ⟨hqs, hqbody⟩ := lacksQuotes_append_iff.1 hq
    have hws : ∀ t ∈ statementTokens s, t.WellFormed := fun t ht =>
      h t (by simp [statementsTokens, ht])
    have hwbody : ∀ t ∈ statementsTokens body, t.WellFormed := fun t ht =>
      h t (by simp [statementsTokens, ht])
    have hsource : ∀ s body, (statementSources (s :: body)).toList ++ rest =
        (statementSource s).toList ++ ((statementSources body).toList ++ rest) := by
      simp [statementSources]
    have hends : EndsStatement ((statementSources body).toList ++ rest) := by
      match body, hs.2, hwbody with
      | [], _, _ => exact hr
      | next :: body, hs, hw =>
        rw [hsource]
        exact endsStatement_statement hs.1 (fun t ht => hw t (by simp [statementsTokens, ht])) _
    rw [hsource, scan_statement hs.1 hws hqs hends, scan_statements hs.2 hwbody hqbody hr,
      statementsTokens, List.append_assoc]

end

/-! ## The round trip -/

/-- What calculator code was read as is written with the tokens of the code, and read back, if no
string in it holds a double quote. -/
theorem parse_statementSources_of_parse {source : String} {statements : List SplicedStmt}
    (h : host.dialect.parse none source = .ok statements)
    (hq : ∀ value ∈ statementsStrings statements, '"' ∉ value.toList) :
    tokens .code (statementSources statements) = tokens .code source ∧
      host.dialect.parse none (statementSources statements) = .ok statements := by
  obtain ⟨hcanonical, htokens⟩ := parse_eq_ok_iff.1 h
  have hwell : ∀ t ∈ statementsTokens statements, t.WellFormed := fun t ht =>
    wellFormed_of_mem_scan (tokens_eq_scan .code source ▸ htokens ▸ ht)
  have hwritten : tokens .code (statementSources statements) = statementsTokens statements := by
    have hscan := @scan_statements statements hcanonical hwell hq [] (by simp [EndsStatement])
    rwa [List.append_nil, scan_nil, List.append_nil] at hscan
  exact ⟨hwritten.trans htokens.symm, parse_eq_ok_iff.2 ⟨hcanonical, hwritten⟩⟩

/-- An instance with a group in a sum, interpolations as an item, as an expression and as a
directive, blocks and loops inside one another, an empty block before an end directive, and strings
in either kind of quotes. -/
theorem parse_statementSources_of_parse_nested :
    ∃ source statements, source =
        "let x = (a, \x7b\x7b b+1 \x7d\x7d) + 'it';" ++
          "\x7b \x7b% for (i, j) in x %\x7d\x7b\x7bi\x7d\x7d\x7b\x7d\x7b% endfor %\x7d \x7d" ++
          "\x7b\x7b y \x7d\x7d;\x7b% join k in \"it's\" with ',' %\x7dk;\x7b% endjoin %\x7d" ∧
      statements =
        [.plain (.let_ "x" (.host (.sum
          [.group [.host (.name "a"), .interpolation (.host (.sum [.name "b", .int "1"]))],
            .str "it"]))),
          .plain (.block [.forIn (.tuple [.var "i", .var "j"]) (.host (.name "x"))
            [.interpolation (.host (.name "i")), .plain (.block [])]]),
          .plain (.expr (.interpolation (.host (.name "y")))),
          .join (.var "k") (.host (.str "it's")) (.host (.str ","))
            [.plain (.expr (.host (.name "k")))]] ∧
      host.dialect.parse none source = .ok statements ∧
      (∀ value ∈ statementsStrings statements, '"' ∉ value.toList) ∧
      tokens .code (statementSources statements) = tokens .code source ∧
      host.dialect.parse none (statementSources statements) = .ok statements := by
  refine ⟨_, _, rfl, rfl, ?_⟩
  rw [← and_assoc]
  refine (and_iff_left_of_imp fun h => parse_statementSources_of_parse h.1 h.2).2
    ⟨parse_eq_ok_iff.2 ⟨?_, ?_⟩, ?_⟩
  · simp [StatementsCanonical, StatementCanonical, Stmt.Canonical, SplicedCanonical,
      Expr.Canonical, ItemsCanonical, OperandsCanonical, Expr.isSum]
  · decide +kernel
  · decide +kernel

end Stencil.Calc
