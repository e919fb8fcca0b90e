import SequenceQuery.Dialect.Postgres

namespace SequenceQuery

namespace Postgres

/-- Writes a part of a command; the state is the parameters numbered so far. -/
abbrev Writer := StateT (List BoundParameter) (Except DialectError) String

def spaced : List String → String
  | [] => ""
  | [w] => w
  | w :: rest => w ++ (" " ++ spaced rest)

def inParens (text : String) : String := "(" ++ (text ++ ")")

def inParensIf (wrap : Bool) (text : String) : String := if wrap then inParens text else text

def clauseText (keyword : List String) (text : String) : String :=
  " " ++ (spaced keyword ++ (" " ++ text))

def writeIf (present : Bool) (keyword : List String) (body : Writer) : Writer :=
  if present then clauseText keyword <$> body else return ""

def joinText (kind : JoinKind) (table condition : String) : String :=
  clauseText (match kind with | .inner => ["JOIN"] | .left => ["LEFT", "JOIN"]) table ++
    clauseText ["ON"] condition

def keyText (ascending : Bool) (key : String) : String :=
  if ascending then key else key ++ (" " ++ "DESC")

def listed (first others : String) : String := first ++ ("," ++ (" " ++ others))

def literalText : Value → String
  | .null => "NULL"
  | .bool b => if b then "TRUE" else "FALSE"
  | .int n => toString n.toInt
  | .float x => x.text
  | .text s => doubled '\'' s

section

variable (quote : Bool) (arguments : Arguments)

def labelledText (text label : String) : String :=
  text ++ (" " ++ ("AS" ++ (" " ++ identifier quote label)))

def qualifiedText (qualifier : Option String) (name : String) : String :=
  match qualifier with
  | none => identifier quote name
  | some qualifier => identifier quote qualifier ++ ("." ++ identifier quote name)

/-- The name of a source: the one that it has, or else the next number, with its value bound. -/
def writeSource (source : Source) : Writer := do
  let written ← get
  match written.find? fun p => p.source = source with
  | some p => return p.name
  | none =>
    let value ← arguments.resolve source
    let name := "$" ++ toString (written.length + 1)
    set (written ++ [(⟨name, source, value⟩ : BoundParameter)])
    return name

mutual

def writeSelect : Select → Writer
  | ⟨distinct, items, source, joins, filter, groupBy, having, orderBy, limit, offset, _⟩ => do
    let selected ← writeItems items
    let source ← writeFrom source
    let joined ← writeJoins joins
    let filtered ← writeClause ["WHERE"] filter
    let grouped ← writeIf (!groupBy.isEmpty) ["GROUP", "BY"] (writeList groupBy)
    let restricted ← writeClause ["HAVING"] having
    let ordered ← writeIf (!orderBy.isEmpty) ["ORDER", "BY"] (writeKeys orderBy)
    let limited ← writeClause ["LIMIT"] limit
    let skipped ← writeClause ["OFFSET"] offset
    return spaced (if distinct then ["SELECT", "DISTINCT"] else ["SELECT"]) ++
      (" " ++ (selected ++ (source ++ (joined ++ (filtered ++ (grouped ++ (restricted ++
        (ordered ++ (limited ++ skipped)))))))))

def writeItems : List SelectItem → Writer
  | [] => return "*"
  | [item] => writeItem item
  | item :: next :: rest => do
    let first ← writeItem item
    let others ← writeItems (next :: rest)
    return listed first others

def writeItem : SelectItem → Writer
  | .wildcard => return "*"
  | .expr e none => writeExpr e
  | .expr e (some label) => do
    let value ← writeExpr e
    return labelledText quote value label

def writeTable : Table → Writer
  | .table schema name label => return labelledText quote (qualifiedText quote schema name) label
  | .subquery query label => do
    let query ← writeSelect query
    return labelledText quote (inParens query) label

def writeFrom : Option Table → Writer
  | none => return ""
  | some table => clauseText ["FROM"] <$> writeTable table

def writeJoins : List Join → Writer
  | [] => return ""
  | ⟨kind, table, none⟩ :: rest => do
    let table ← writeTable table
    let others ← writeJoins rest
    return joinText kind table "TRUE" ++ others
  | ⟨kind, table, some condition⟩ :: rest => do
    let table ← writeTable table
    let condition ← writeExpr condition
    let others ← writeJoins rest
    return joinText kind table condition ++ others

def writeKeys : List SortKey → Writer
  | [] => return ""
  | [⟨e, ascending⟩] => keyText ascending <$> writeExpr e
  | ⟨e, ascending⟩ :: next :: rest => do
    let key ← writeExpr e
    let others ← writeKeys (next :: rest)
    return listed (keyText ascending key) others

def writeClause (keyword : List String) : Option SqlExpr → Writer
  | none => return ""
  | some e => clauseText keyword <$> writeExpr e

def writeList : List SqlExpr → Writer
  | [] => return ""
  | [e] => writeExpr e
  | e :: next :: rest => do
    let first ← writeExpr e
    let others ← writeList (next :: rest)
    return listed first others

def writeArms : List (SqlExpr × SqlExpr) → Writer
  | [] => return ""
  | (test, value) :: rest => do
    let test ← writeExpr test
    let value ← writeExpr value
    let others ← writeArms rest
    return clauseText ["WHEN"] test ++ (clauseText ["THEN"] value ++ others)

def writeExpr : SqlExpr → Writer
  | .column table name => return qualifiedText quote table name
  | .literal value => return literalText value
  | .param source => writeSource arguments source
  | .binary op left right => do
    let l ← writeExpr left
    let r ← writeExpr right
    return inParensIf (left.bindsLooser op false) l ++
      (" " ++ (tokenText quote [] op.token ++ (" " ++ inParensIf (right.bindsLooser op true) r)))
  | .unary op operand => do
    let inner ← writeExpr operand
    let inner := inParensIf operand.isBinary inner
    return match op with
      | .not => "NOT" ++ (" " ++ inner)
      | .minus => "-" ++ inner
  | .function name args => do
    let args ← writeList args
    return name ++ inParens args
  | .aggregate name args distinct => do
    let args ← writeList args
    let call := name ++ inParens ((if distinct then "DISTINCT" ++ " " else "") ++ args)
    return if Text.sameFold name "AVG" then
        "CAST" ++ inParens (call ++ (" " ++ spaced ["AS", "DOUBLE", "PRECISION"]))
      else call
  | .cases arms otherwise => do
    let arms ← writeArms arms
    let otherwise ← writeClause ["ELSE"] otherwise
    return "CASE" ++ (arms ++ (otherwise ++ (" " ++ "END")))
  | .subquery query => inParens <$> writeSelect query
  | .exist query negated => do
    let query ← writeSelect query
    return spaced (if negated then ["NOT", "EXISTS"] else ["EXISTS"]) ++ (" " ++ inParens query)
  | .isIn operand query negated => do
    let value ← writeExpr operand
    let query ← writeSelect query
    return value ++ (" " ++ (spaced (if negated then ["NOT", "IN"] else ["IN"]) ++
      (" " ++ inParens query)))
  | .isNull operand negated => do
    let inner ← writeExpr operand
    return inParensIf operand.isBinary inner ++
      (" " ++ spaced (if negated then ["IS", "NOT", "NULL"] else ["IS", "NULL"]))
  | .wildcard => return "*"
  | .nested inner => inParens <$> writeExpr inner

end

def writeToken : Token → Writer
  | .placeholder source => writeSource arguments source
  | token => return tokenText quote [] token

def writeTokens : List Token → Writer
  | [] => return ""
  | token :: rest => do
    let first ← writeToken quote arguments token
    let others ← writeTokens rest
    return first ++ others

end

section

open Token

variable {quote : Bool} {arguments : Arguments} (tokens more : List Token)

theorem writeToken_word (w : String) : writeToken quote arguments (.word w) = pure w := rfl

theorem writeToken_routine (w : String) : writeToken quote arguments (.routine w) = pure w := rfl

theorem writeToken_symbol (w : String) : writeToken quote arguments (.symbol w) = pure w := rfl

theorem writeToken_blank : writeToken quote arguments .blank = pure " " := rfl

theorem writeToken_ident (name : String) :
    writeToken quote arguments (.ident name) = pure (identifier quote name) := rfl

theorem writeToken_operator (op : SqlBinary) :
    writeToken quote arguments op.token = pure (tokenText quote [] op.token) := by
  cases op <;> rfl

theorem writeToken_value (value : Value) :
    writeToken quote arguments value.token = pure (literalText value) := by
  cases value <;> rfl

theorem writeTokens_nil : writeTokens quote arguments [] = pure "" := rfl

theorem writeTokens_cons (token : Token) : writeTokens quote arguments (token :: more) = do
    let first ← writeToken quote arguments token
    let others ← writeTokens quote arguments more
    return first ++ others := rfl

theorem writeTokens_append : writeTokens quote arguments (tokens ++ more) = do
    let first ← writeTokens quote arguments tokens
    let others ← writeTokens quote arguments more
    return first ++ others := by
  induction tokens with
  | nil => simp only [List.nil_append, writeTokens_nil, pure_bind, String.empty_append, bind_pure]
  | cons token tokens ih =>
    simp only [List.cons_append, writeTokens_cons, ih, bind_assoc, pure_bind, String.append_assoc]

theorem writeTokens_words (ws : List String) :
    writeTokens quote arguments (words ws) = pure (spaced ws) := by
  induction ws with
  | nil => rfl
  | cons w ws ih =>
    cases ws with
    | nil =>
      simp only [words, spaced, writeTokens_cons, writeTokens_nil, writeToken_word, pure_bind,
        String.append_empty]
    | cons v ws =>
      simp only [words, spaced, writeTokens_cons, ih, writeToken_word, writeToken_blank, pure_bind]

theorem writeTokens_parens : writeTokens quote arguments (parens tokens) =
    inParens <$> writeTokens quote arguments tokens := by
  simp only [parens, inParens, List.cons_append, writeTokens_cons, writeTokens_append,
    writeTokens_nil, writeToken_symbol, map_eq_pure_bind, bind_assoc, pure_bind, String.append_empty]

theorem writeTokens_parensIf (wrap : Bool) : writeTokens quote arguments (parensIf wrap tokens) =
    inParensIf wrap <$> writeTokens quote arguments tokens := by
  cases wrap with
  | false => exact (id_map _).symm
  | true => exact writeTokens_parens tokens

theorem writeTokens_clause (keyword : List String) :
    writeTokens quote arguments (clause keyword (some tokens)) =
      clauseText keyword <$> writeTokens quote arguments tokens := by
  simp only [clause, clauseText, List.cons_append, writeTokens_cons, writeTokens_append,
    writeTokens_words, writeToken_blank, map_eq_pure_bind, bind_assoc, pure_bind]

theorem writeTokens_listClause (keyword : List String) (items : List (List Token)) :
    writeTokens quote arguments (listClause keyword items) =
      writeIf (!items.isEmpty) keyword (writeTokens quote arguments (commaList items)) := by
  cases items with
  | nil => rfl
  | cons => exact writeTokens_clause _ keyword

theorem writeTokens_qualified (qualifier : Option String) (name : String) :
    writeTokens quote arguments (qualified qualifier name) =
      pure (qualifiedText quote qualifier name) := by
  cases qualifier <;>
    simp only [qualified, qualifiedText, writeTokens_cons, writeTokens_nil, writeToken_ident,
      writeToken_symbol, pure_bind, String.append_empty]

theorem writeTokens_labelled (label : String) :
    writeTokens quote arguments (labelled tokens label) =
      (labelledText quote · label) <$> writeTokens quote arguments tokens := by
  simp only [labelled, labelledText, writeTokens_cons, writeTokens_append, writeTokens_nil,
    writeToken_word, writeToken_blank, writeToken_ident, map_eq_pure_bind, pure_bind,
    String.append_empty]

theorem writeTokens_key (ascending : Bool) :
    writeTokens quote arguments (if ascending then tokens else tokens ++ [.blank, .word "DESC"]) =
      keyText ascending <$> writeTokens quote arguments tokens := by
  cases ascending with
  | true => exact (id_map _).symm
  | false =>
    simp only [keyText, Bool.false_eq_true, if_false, writeTokens_append, writeTokens_cons,
      writeTokens_nil, writeToken_word, writeToken_blank, map_eq_pure_bind, pure_bind,
      String.append_empty]

theorem writeTokens_join (kind : JoinKind) (condition : List Token) :
    writeTokens quote arguments
      (clause (match kind with | .inner => ["JOIN"] | .left => ["LEFT", "JOIN"]) (some tokens) ++
        clause ["ON"] (some condition) ++ more) = do
      let table ← writeTokens quote arguments tokens
      let condition ← writeTokens quote arguments condition
      let others ← writeTokens quote arguments more
      return joinText kind table condition ++ others := by
  simp only [joinText, writeTokens_append, writeTokens_clause, map_eq_pure_bind, bind_assoc,
    pure_bind]

theorem writeTokens_listed :
    writeTokens quote arguments (tokens ++ .symbol "," :: .blank :: more) = do
      let first ← writeTokens quote arguments tokens
      let others ← writeTokens quote arguments more
      return listed first others := by
  simp only [listed, writeTokens_append, writeTokens_cons, writeToken_symbol, writeToken_blank,
    bind_assoc, pure_bind]

theorem commaList_itemTokens (item next : SelectItem) (rest : List SelectItem) :
    commaList (itemTokens (item :: next :: rest)) = commaList (itemTokens [item]) ++
      .symbol "," :: .blank :: commaList (itemTokens (next :: rest)) := by
  rcases item with _ | ⟨e, _ | label⟩ <;> rcases next with _ | ⟨e', _ | label'⟩ <;> rfl

end

section

open Token

variable (quote : Bool) (arguments : Arguments)

mutual

/-- Writing a statement is writing its tokens from left to right. -/
theorem writeSelect_eq : ∀ s : Select,
    writeSelect quote arguments s = writeTokens quote arguments s.tokens
  | ⟨distinct, items, source, joins, filter, groupBy, having, orderBy, limit, offset, _⟩ => by
    have hgroups : groupBy.isEmpty = (listTokens groupBy).isEmpty := by cases groupBy <;> rfl
    have hkeys : orderBy.isEmpty = (keyTokens orderBy).isEmpty := by
      rcases orderBy with _ | ⟨⟨⟩, _⟩ <;> rfl
    rw [writeSelect, Select.tokens, writeItems_eq items, writeFrom_eq source, writeJoins_eq joins,
      writeClause_eq _ filter, writeList_eq groupBy, writeClause_eq _ having, writeKeys_eq orderBy,
      writeClause_eq _ limit, writeClause_eq _ offset, hgroups, hkeys]
    simp only [writeTokens_append, writeTokens_cons, writeTokens_words, writeTokens_listClause,
      writeToken_blank, bind_assoc, pure_bind, String.append_assoc]

theorem writeItems_eq : ∀ items : List SelectItem, writeItems quote arguments items =
    writeTokens quote arguments
      (if items.isEmpty then [.symbol "*"] else commaList (itemTokens items))
  | [] => rfl
  | [item] => writeItem_eq item
  | item :: next :: rest => by
    rw [writeItems, writeItem_eq item, writeItems_eq (next :: rest)]
    exact (congrArg _ (commaList_itemTokens item next rest)).trans (writeTokens_listed _ _) |>.symm

theorem writeItem_eq : ∀ item : SelectItem, writeItem quote arguments item =
    writeTokens quote arguments (commaList (itemTokens [item]))
  | .wildcard => rfl
  | .expr e none => writeExpr_eq e
  | .expr e (some label) => by
    rw [writeItem, writeExpr_eq e, ← map_eq_pure_bind]
    exact (writeTokens_labelled _ label).symm

theorem writeTable_eq : ∀ t : Table,
    writeTable quote arguments t = writeTokens quote arguments t.tokens
  | .table schema name label => by
    rw [writeTable, Table.tokens, writeTokens_labelled, writeTokens_qualified, map_pure]
  | .subquery query label => by
    rw [writeTable, Table.tokens, writeSelect_eq query, writeTokens_labelled, writeTokens_parens,
      Functor.map_map, map_eq_pure_bind]

theorem writeFrom_eq : ∀ t : Option Table, writeFrom quote arguments t =
    writeTokens quote arguments (clause ["FROM"] (sourceTokens t))
  | none => rfl
  | some t => by rw [writeFrom, writeTable_eq t, sourceTokens, writeTokens_clause]

theorem writeJoins_eq : ∀ joins : List Join,
    writeJoins quote arguments joins = writeTokens quote arguments (joinTokens joins)
  | [] => rfl
  | ⟨kind, table, none⟩ :: rest => by
    rw [writeJoins, writeTable_eq table, writeJoins_eq rest]
    exact (writeTokens_join _ _ kind [.word "TRUE"]).symm
  | ⟨kind, table, some condition⟩ :: rest => by
    rw [writeJoins, writeTable_eq table, writeExpr_eq condition, writeJoins_eq rest]
    exact (writeTokens_join _ _ kind condition.tokens).symm

theorem writeKeys_eq : ∀ keys : List SortKey, writeKeys quote arguments keys =
    writeTokens quote arguments (commaList (keyTokens keys))
  | [] => rfl
  | [⟨e, ascending⟩] => by
    rw [writeKeys, writeExpr_eq e]
    exact (writeTokens_key _ ascending).symm
  | ⟨e, ascending⟩ :: ⟨next, rising⟩ :: rest => by
    rw [writeKeys, writeExpr_eq e, writeKeys_eq (⟨next, rising⟩ :: rest)]
    refine Eq.trans ?_ (writeTokens_listed _ (commaList (keyTokens (⟨next, rising⟩ :: rest)))).symm
    rw [writeTokens_key, map_eq_pure_bind, bind_assoc]
    simp only [pure_bind]

theorem writeClause_eq (keyword : List String) : ∀ e : Option SqlExpr,
    writeClause quote arguments keyword e =
      writeTokens quote arguments (clause keyword (optionTokens e))
  | none => rfl
  | some e => by rw [writeClause, writeExpr_eq e, optionTokens, writeTokens_clause]

theorem writeList_eq : ∀ es : List SqlExpr, writeList quote arguments es =
    writeTokens quote arguments (commaList (listTokens es))
  | [] => rfl
  | [e] => writeExpr_eq e
  | e :: next :: rest => by
    rw [writeList, writeExpr_eq e, writeList_eq (next :: rest)]
    exact (writeTokens_listed e.tokens (commaList (listTokens (next :: rest)))).symm

theorem writeArms_eq : ∀ arms : List (SqlExpr × SqlExpr),
    writeArms quote arguments arms = writeTokens quote arguments (armTokens arms)
  | [] => rfl
  | (test, value) :: rest => by
    rw [writeArms, writeExpr_eq test, writeExpr_eq value, writeArms_eq rest, armTokens]
    simp only [writeTokens_append, writeTokens_clause, map_eq_pure_bind, bind_assoc, pure_bind,
      String.append_assoc]

theorem writeExpr_eq : ∀ e : SqlExpr,
    writeExpr quote arguments e = writeTokens quote arguments e.tokens
  | .column table name => (writeTokens_qualified table name).symm
  | .literal value => by
    rw [writeExpr, SqlExpr.tokens, writeTokens_cons, writeToken_value, pure_bind, writeTokens_nil,
      pure_bind, String.append_empty]
  | .param source => by
    rw [writeExpr, SqlExpr.tokens, writeTokens_cons]
    simp only [writeToken, writeTokens_nil, pure_bind, String.append_empty, bind_pure]
  | .binary op left right => by
    rw [writeExpr, SqlExpr.tokens, writeExpr_eq left, writeExpr_eq right]
    simp only [writeTokens_append, writeTokens_parensIf, writeTokens_cons, writeTokens_nil,
      writeToken_operator, writeToken_blank, map_eq_pure_bind, bind_assoc, pure_bind,
      String.append_empty, String.append_assoc]
  | .unary .not operand | .unary .minus operand => by
    rw [writeExpr, SqlExpr.tokens, writeExpr_eq operand]
    simp only [writeTokens_parensIf, writeTokens_cons, writeToken_word, writeToken_symbol,
      writeToken_blank, map_eq_pure_bind, bind_assoc, pure_bind]
  | .function name args => by
    rw [writeExpr, SqlExpr.tokens, writeList_eq args]
    simp only [writeTokens_parens, writeTokens_cons, writeToken_routine, map_eq_pure_bind,
      bind_assoc, pure_bind]
  | .aggregate name args distinct => by
    have hdistinct : writeTokens quote arguments
        (if distinct then [.word "DISTINCT", .blank] else []) =
          pure (if distinct then "DISTINCT" ++ " " else "") := by
      cases distinct <;> rfl
    rw [writeExpr, SqlExpr.tokens, writeList_eq args]
    by_cases h : Text.sameFold name "AVG" = true
    · simp only [h, if_true, writeTokens_parens, writeTokens_append, writeTokens_cons,
        writeTokens_words, hdistinct, writeToken_word, writeToken_routine, writeToken_blank,
        map_eq_pure_bind, bind_assoc, pure_bind]
    · simp only [h, if_false, Bool.false_eq_true, writeTokens_parens, writeTokens_append,
        writeTokens_cons, hdistinct, writeToken_routine, map_eq_pure_bind, bind_assoc, pure_bind]
  | .cases arms otherwise => by
    rw [writeExpr, SqlExpr.tokens, writeArms_eq arms, writeClause_eq _ otherwise]
    simp only [writeTokens_append, writeTokens_cons, writeTokens_nil, writeToken_word,
      writeToken_blank, bind_assoc, pure_bind, String.append_empty, String.append_assoc]
  | .subquery query => by
    rw [writeExpr, SqlExpr.tokens, writeSelect_eq query, writeTokens_parens]
  | .exist query negated => by
    rw [writeExpr, SqlExpr.tokens, writeSelect_eq query]
    simp only [writeTokens_append, writeTokens_words, writeTokens_cons, writeTokens_parens,
      writeToken_blank, map_eq_pure_bind, bind_assoc, pure_bind]
  | .isIn operand query negated => by
    rw [writeExpr, SqlExpr.tokens, writeExpr_eq operand, writeSelect_eq query]
    simp only [writeTokens_append, writeTokens_words, writeTokens_cons, writeTokens_parens,
      writeToken_blank, map_eq_pure_bind, bind_assoc, pure_bind, String.append_assoc]
  | .isNull operand negated => by
    rw [writeExpr, SqlExpr.tokens, writeExpr_eq operand]
    simp only [writeTokens_append, writeTokens_words, writeTokens_cons, writeTokens_parensIf,
      writeToken_blank, map_eq_pure_bind, bind_assoc, pure_bind]
  | .wildcard => rfl
  | .nested inner => by
    rw [writeExpr, SqlExpr.tokens, writeExpr_eq inner, writeTokens_parens]

end

end

end Postgres

end SequenceQuery
