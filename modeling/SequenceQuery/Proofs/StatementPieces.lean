import SequenceQuery.Proofs.Scoping
import SequenceQuery.Sql.Token

namespace SequenceQuery

inductive Piece
  | expr (e : SqlExpr)
  | name (s : String)

def Piece.source? : Piece → Option Source
  | .expr (.param source) => some source
  | _ => none

theorem Piece.source?_eq_some {piece : Piece} {source : Source} :
    piece.source? = some source ↔ piece = .expr (.param source) := by
  constructor
  · intro h
    unfold Piece.source? at h
    split at h
    · rw [Option.some.inj h]
    · cases h
  · rintro rfl
    rfl

theorem Piece.mem_sources {ps : List Piece} {source : Source} :
    source ∈ ps.filterMap Piece.source? ↔ .expr (.param source) ∈ ps := by
  simp only [List.mem_filterMap, Piece.source?_eq_some, exists_eq_right]

mutual

def Select.pieces : Select → List Piece
  | ⟨_, items, source, joins, filter, groupBy, having, orderBy, limit, offset, _⟩ =>
    itemPieces items ++ sourcePieces source ++ joinPieces joins ++ optionPieces filter ++
      listPieces groupBy ++ optionPieces having ++ keyPieces orderBy ++ optionPieces limit ++
      optionPieces offset

def itemPieces : List SelectItem → List Piece
  | [] => []
  | .wildcard :: rest => itemPieces rest
  | .expr e label :: rest => e.pieces ++ label.toList.map Piece.name ++ itemPieces rest

def Table.pieces : Table → List Piece
  | .table schema name label => schema.toList.map Piece.name ++ [.name name, .name label]
  | .subquery query label => query.pieces ++ [.name label]

def sourcePieces : Option Table → List Piece
  | none => []
  | some table => table.pieces

def joinPieces : List Join → List Piece
  | [] => []
  | ⟨_, table, condition⟩ :: rest => table.pieces ++ optionPieces condition ++ joinPieces rest

def keyPieces : List SortKey → List Piece
  | [] => []
  | ⟨e, _⟩ :: rest => e.pieces ++ keyPieces rest

def optionPieces : Option SqlExpr → List Piece
  | none => []
  | some e => e.pieces

def listPieces : List SqlExpr → List Piece
  | [] => []
  | e :: rest => e.pieces ++ listPieces rest

def armPieces : List (SqlExpr × SqlExpr) → List Piece
  | [] => []
  | (test, value) :: rest => test.pieces ++ value.pieces ++ armPieces rest

def SqlExpr.pieces : SqlExpr → List Piece
  | e@(.column ..) | e@(.literal _) | e@(.param _) | e@.wildcard => [.expr e]
  | e@(.binary _ left right) => .expr e :: (left.pieces ++ right.pieces)
  | e@(.unary _ operand) | e@(.isNull operand _) | e@(.nested operand) => .expr e :: operand.pieces
  | e@(.function _ args) | e@(.aggregate _ args _) => .expr e :: listPieces args
  | e@(.cases arms otherwise) => .expr e :: (armPieces arms ++ optionPieces otherwise)
  | e@(.subquery query) | e@(.exist query _) => .expr e :: query.pieces
  | e@(.isIn operand query _) => .expr e :: (operand.pieces ++ query.pieces)

end

namespace Token

/-- A token that carries data: a name, a literal or the place of a parameter. -/
def isData : Token → Bool
  | .ident _ | .number _ | .text _ | .placeholder _ => true
  | _ => false

def data (tokens : List Token) : List Token := tokens.filter isData

section

variable (tokens more : List Token)

@[simp] theorem data_nil : data [] = [] := rfl

@[simp] theorem data_append : data (tokens ++ more) = data tokens ++ data more :=
  List.filter_append ..

@[simp] theorem data_word (s : String) : data (.word s :: tokens) = data tokens := rfl

@[simp] theorem data_routine (s : String) : data (.routine s :: tokens) = data tokens := rfl

@[simp] theorem data_symbol (s : String) : data (.symbol s :: tokens) = data tokens := rfl

@[simp] theorem data_blank : data (.blank :: tokens) = data tokens := rfl

@[simp] theorem data_ident (s : String) : data (.ident s :: tokens) = .ident s :: data tokens := rfl

@[simp] theorem data_placeholder (s : Source) :
    data (.placeholder s :: tokens) = .placeholder s :: data tokens := rfl

@[simp] theorem data_operator (op : SqlBinary) : data (op.token :: tokens) = data tokens := by
  cases op <;> rfl

@[simp] theorem data_words (ws : List String) : data (words ws) = [] := by
  induction ws with
  | nil => rfl
  | cons w ws ih =>
    cases ws with
    | nil => rfl
    | cons => simpa [words] using ih

@[simp] theorem data_parens : data (parens tokens) = data tokens := by simp [parens]

@[simp] theorem data_parensIf (wrap : Bool) : data (parensIf wrap tokens) = data tokens := by
  cases wrap <;> simp [parensIf]

@[simp] theorem data_commaList (items : List (List Token)) :
    data (commaList items) = items.flatMap data := by
  induction items with
  | nil => rfl
  | cons item items ih =>
    cases items with
    | nil => simp [commaList]
    | cons => simpa [commaList] using ih

@[simp] theorem data_clause (keyword : List String) (body : Option (List Token)) :
    data (clause keyword body) = data (body.getD []) := by
  cases body <;> simp [clause]

@[simp] theorem data_listClause (keyword : List String) (items : List (List Token)) :
    data (listClause keyword items) = items.flatMap data := by
  cases items <;> simp [listClause]

@[simp] theorem data_qualified (qualifier : Option String) (name : String) :
    data (qualified qualifier name) = (qualifier.toList ++ [name]).map .ident := by
  cases qualifier <;> rfl

@[simp] theorem data_labelled (label : String) :
    data (labelled tokens label) = data tokens ++ [.ident label] := by
  simp [labelled]

end

end Token

def Piece.data : Piece → List Token
  | .name s => [.ident s]
  | .expr (.column table column) => (table.toList ++ [column]).map .ident
  | .expr (.literal value) => Token.data [value.token]
  | .expr (.param source) => [.placeholder source]
  | .expr _ => []

theorem flatMap_data_names (names : List String) :
    (names.map Piece.name).flatMap Piece.data = names.map .ident := by
  induction names with
  | nil => rfl
  | cons name names ih => simp [Piece.data, ih]

mutual

/-- A statement is written with the data of its pieces, in their order. -/
theorem Select.data_tokens : ∀ s : Select, Token.data s.tokens = s.pieces.flatMap Piece.data
  | ⟨distinct, items, source, joins, filter, groupBy, having, orderBy, limit, offset, _⟩ => by
    have hitems := data_itemTokens items
    have hlist : Token.data (if items.isEmpty then [.symbol "*"]
        else Token.commaList (itemTokens items)) = (itemPieces items).flatMap Piece.data := by
      cases items with
      | nil => rfl
      | cons => simpa using hitems
    simp only [Select.tokens, Select.pieces, Token.data_append, Token.data_words, Token.data_blank,
      Token.data_clause, Token.data_listClause, hlist, data_sourceTokens source,
      data_joinTokens joins, data_optionTokens filter, data_listTokens groupBy,
      data_optionTokens having, data_keyTokens orderBy, data_optionTokens limit,
      data_optionTokens offset, List.flatMap_append, List.nil_append]

theorem data_itemTokens : ∀ items : List SelectItem,
    (itemTokens items).flatMap Token.data = (itemPieces items).flatMap Piece.data
  | [] => rfl
  | .wildcard :: rest => by simp [itemTokens, itemPieces, data_itemTokens rest]
  | .expr e none :: rest => by
    simp [itemTokens, itemPieces, e.data_tokens, data_itemTokens rest]
  | .expr e (some label) :: rest => by
    simp [itemTokens, itemPieces, e.data_tokens, data_itemTokens rest, Piece.data]

theorem Table.data_tokens : ∀ t : Table, Token.data t.tokens = t.pieces.flatMap Piece.data
  | .table schema name label => by
    simp [Table.tokens, Table.pieces, flatMap_data_names, Piece.data]
  | .subquery query label => by
    simp [Table.tokens, Table.pieces, query.data_tokens, Piece.data]

theorem data_sourceTokens : ∀ t : Option Table,
    Token.data ((sourceTokens t).getD []) = (sourcePieces t).flatMap Piece.data
  | none => rfl
  | some t => t.data_tokens

theorem data_joinTokens : ∀ joins : List Join,
    Token.data (joinTokens joins) = (joinPieces joins).flatMap Piece.data
  | [] => rfl
  | ⟨_, table, condition⟩ :: rest => by
    have hcondition := data_optionTokens condition
    have hon : Token.data ((optionTokens condition).getD [.word "TRUE"]) =
        (optionPieces condition).flatMap Piece.data := by
      rw [← hcondition]
      cases condition <;> rfl
    simp [joinTokens, joinPieces, table.data_tokens, hon, data_joinTokens rest]

theorem data_keyTokens : ∀ keys : List SortKey,
    (keyTokens keys).flatMap Token.data = (keyPieces keys).flatMap Piece.data
  | [] => rfl
  | ⟨e, ascending⟩ :: rest => by
    have hkey : Token.data (if ascending then e.tokens else e.tokens ++ [.blank, .word "DESC"]) =
        Token.data e.tokens := by
      cases ascending <;> simp
    simp [keyTokens, keyPieces, hkey, e.data_tokens, data_keyTokens rest]

theorem data_optionTokens : ∀ e : Option SqlExpr,
    Token.data ((optionTokens e).getD []) = (optionPieces e).flatMap Piece.data
  | none => rfl
  | some e => e.data_tokens

theorem data_listTokens : ∀ es : List SqlExpr,
    (listTokens es).flatMap Token.data = (listPieces es).flatMap Piece.data
  | [] => rfl
  | e :: rest => by simp [listTokens, listPieces, e.data_tokens, data_listTokens rest]

theorem data_armTokens : ∀ arms : List (SqlExpr × SqlExpr),
    Token.data (armTokens arms) = (armPieces arms).flatMap Piece.data
  | [] => rfl
  | (test, value) :: rest => by
    simp [armTokens, armPieces, test.data_tokens, value.data_tokens, data_armTokens rest]

theorem SqlExpr.data_tokens : ∀ e : SqlExpr, Token.data e.tokens = e.pieces.flatMap Piece.data
  | .column .. | .literal _ | .param _ | .wildcard => by
    simp [SqlExpr.tokens, SqlExpr.pieces, Piece.data]
  | .binary op left right => by
    simp [SqlExpr.tokens, SqlExpr.pieces, Piece.data, left.data_tokens, right.data_tokens]
  | .unary .not operand | .unary .minus operand | .isNull operand _ | .nested operand => by
    simp [SqlExpr.tokens, SqlExpr.pieces, Piece.data, operand.data_tokens]
  | .function _ args => by
    simp [SqlExpr.tokens, SqlExpr.pieces, Piece.data, data_listTokens args]
  | .aggregate _ args distinct => by
    have hdistinct : Token.data (if distinct then [.word "DISTINCT", .blank] else []) = [] := by
      cases distinct <;> rfl
    simp only [SqlExpr.tokens]
    split <;> simp [SqlExpr.pieces, Piece.data, hdistinct, data_listTokens args]
  | .cases arms otherwise => by
    simp [SqlExpr.tokens, SqlExpr.pieces, Piece.data, data_armTokens arms,
      data_optionTokens otherwise]
  | .subquery query | .exist query _ => by
    simp [SqlExpr.tokens, SqlExpr.pieces, Piece.data, query.data_tokens]
  | .isIn operand query _ => by
    simp [SqlExpr.tokens, SqlExpr.pieces, Piece.data, operand.data_tokens, query.data_tokens]

end

section Scoped

variable {catalog : Catalog} {holds : SqlExpr → Prop}

/-- Every expression but a star is one that `holds`. -/
def AllHold (holds : SqlExpr → Prop) (pieces : List Piece) : Prop :=
  ∀ e, .expr e ∈ pieces → e = .wildcard ∨ holds e

@[simp] theorem allHold_nil : AllHold holds [] := nofun

@[simp] theorem allHold_append {ps qs : List Piece} :
    AllHold holds (ps ++ qs) ↔ AllHold holds ps ∧ AllHold holds qs := by
  simp only [AllHold, List.mem_append, or_imp, forall_and]

@[simp] theorem allHold_cons_name {name : String} {ps : List Piece} :
    AllHold holds (.name name :: ps) ↔ AllHold holds ps := by
  simp [AllHold]

theorem allHold_cons {e : SqlExpr} {ps : List Piece} (h : holds e) (hps : AllHold holds ps) :
    AllHold holds (.expr e :: ps) := by
  intro e' he'
  rcases List.mem_cons.1 he' with he' | he'
  · cases he'
    exact .inr h
  · exact hps e' he'

theorem allHold_of_cons {e : SqlExpr} {ps : List Piece} (h : AllHold holds (.expr e :: ps)) :
    (e = .wildcard ∨ holds e) ∧ AllHold holds ps :=
  ⟨h e List.mem_cons_self, fun e' he' => h e' (List.mem_cons_of_mem _ he')⟩

@[simp] theorem allHold_names (names : List String) : AllHold holds (names.map Piece.name) := by
  induction names with
  | nil => exact allHold_nil
  | cons name names ih => simpa using ih

def SqlExpr.first? : SqlExpr → Option SqlExpr
  | .binary _ left _ => some left
  | .unary _ operand | .isNull operand _ | .isIn operand _ _ => some operand
  | _ => none

def SqlExpr.Stands (holds : SqlExpr → Prop) (e : SqlExpr) : Prop :=
  holds e ∧ e.first? ≠ some .wildcard

theorem SqlExpr.Scoped.stands {e first : SqlExpr} {site : Site} (h : holds e)
    (hfirst : first.Scoped catalog holds site) (he : e.first? = some first) : e.Stands holds := by
  refine ⟨h, fun hstar => ?_⟩
  obtain rfl := Option.some.inj (he.symm.trans hstar)
  exact hfirst

mutual

theorem Select.Scoped.allHold {site : Site} :
    ∀ {s : Select}, s.Scoped catalog holds site → AllHold (SqlExpr.Stands holds) s.pieces
  | ⟨_, _, _, _, _, _, _, _, _, _, _⟩,
    ⟨_, hsource, hjoins, hitems, hfilter, hgroups, hhaving, hkeys, hlimit, hoffset⟩ => by
    simp only [Select.pieces, allHold_append]
    exact ⟨⟨⟨⟨⟨⟨⟨⟨itemsScoped_allHold hitems, sourceScoped_allHold hsource⟩,
      joinsScoped_allHold hjoins⟩, optionScoped_allHold hfilter⟩, listScoped_allHold hgroups⟩,
      optionScoped_allHold hhaving⟩, keysScoped_allHold hkeys⟩, optionScoped_allHold hlimit⟩,
      optionScoped_allHold hoffset⟩

theorem Table.Scoped.allHold {site : Site} :
    ∀ {t : Table}, t.Scoped catalog holds site → AllHold (SqlExpr.Stands holds) t.pieces
  | .table .., _ => by simp [Table.pieces]
  | .subquery .., h => by
    have hquery := Select.Scoped.allHold h
    simpa [Table.pieces] using hquery

theorem sourceScoped_allHold {site : Site} :
    ∀ {t : Option Table}, sourceScoped catalog holds site t →
      AllHold (SqlExpr.Stands holds) (sourcePieces t)
  | none, _ => allHold_nil
  | some _, h => Table.Scoped.allHold h

theorem joinsScoped_allHold {site : Site} {before : List Table} : ∀ {joins : List Join},
    joinsScoped catalog holds site before joins → AllHold (SqlExpr.Stands holds) (joinPieces joins)
  | [], _ => allHold_nil
  | ⟨_, _, _⟩ :: _, ⟨htable, hcondition, hrest⟩ => by
    simp only [joinPieces, allHold_append]
    exact ⟨⟨Table.Scoped.allHold htable, optionScoped_allHold hcondition⟩,
      joinsScoped_allHold hrest⟩

theorem itemsScoped_allHold {site : Site} : ∀ {items : List SelectItem},
    itemsScoped catalog holds site items → AllHold (SqlExpr.Stands holds) (itemPieces items)
  | [], _ => allHold_nil
  | .expr .. :: _, ⟨he, hrest⟩ => by
    simp only [itemPieces, allHold_append, allHold_names, and_true]
    exact ⟨SqlExpr.Scoped.allHold he, itemsScoped_allHold hrest⟩

theorem keysScoped_allHold {site : Site} : ∀ {keys : List SortKey},
    keysScoped catalog holds site keys → AllHold (SqlExpr.Stands holds) (keyPieces keys)
  | [], _ => allHold_nil
  | ⟨_, _⟩ :: _, ⟨he, hrest⟩ => by
    simp only [keyPieces, allHold_append]
    exact ⟨SqlExpr.Scoped.allHold he, keysScoped_allHold hrest⟩

theorem optionScoped_allHold {site : Site} : ∀ {e : Option SqlExpr},
    optionScoped catalog holds site e → AllHold (SqlExpr.Stands holds) (optionPieces e)
  | none, _ => allHold_nil
  | some _, h => SqlExpr.Scoped.allHold h

theorem listScoped_allHold {site : Site} : ∀ {es : List SqlExpr},
    listScoped catalog holds site es → AllHold (SqlExpr.Stands holds) (listPieces es)
  | [], _ => allHold_nil
  | _ :: _, ⟨he, hrest⟩ => by
    simp only [listPieces, allHold_append]
    exact ⟨SqlExpr.Scoped.allHold he, listScoped_allHold hrest⟩

theorem armsScoped_allHold {site : Site} : ∀ {arms : List (SqlExpr × SqlExpr)},
    armsScoped catalog holds site arms → AllHold (SqlExpr.Stands holds) (armPieces arms)
  | [], _ => allHold_nil
  | (_, _) :: _, ⟨htest, hvalue, hrest⟩ => by
    simp only [armPieces, allHold_append]
    exact ⟨⟨SqlExpr.Scoped.allHold htest, SqlExpr.Scoped.allHold hvalue⟩, armsScoped_allHold hrest⟩

theorem SqlExpr.Scoped.allHold {site : Site} :
    ∀ {e : SqlExpr}, e.Scoped catalog holds site → AllHold (SqlExpr.Stands holds) e.pieces
  | .column .., ⟨h, _⟩ => allHold_cons ⟨h, nofun⟩ allHold_nil
  | .literal _, h | .param _, h => allHold_cons ⟨h, nofun⟩ allHold_nil
  | .binary .., ⟨h, hl, hr⟩ => allHold_cons (SqlExpr.Scoped.stands h hl rfl)
    (allHold_append.2 ⟨SqlExpr.Scoped.allHold hl, SqlExpr.Scoped.allHold hr⟩)
  | .unary .., ⟨h, ho⟩ | .isNull .., ⟨h, ho⟩ =>
    allHold_cons (SqlExpr.Scoped.stands h ho rfl) (SqlExpr.Scoped.allHold ho)
  | .nested _, ⟨h, ho⟩ => allHold_cons ⟨h, nofun⟩ (SqlExpr.Scoped.allHold ho)
  | .function .., ⟨h, ha⟩ => allHold_cons ⟨h, nofun⟩ (listScoped_allHold ha)
  | .aggregate .., ⟨h, .inl hstar⟩ => by
    subst hstar
    refine allHold_cons ⟨h, nofun⟩ fun e he => .inl ?_
    simpa [listPieces, SqlExpr.pieces] using he
  | .aggregate .., ⟨h, .inr ha⟩ => allHold_cons ⟨h, nofun⟩ (listScoped_allHold ha)
  | .cases .., ⟨h, ha, ho⟩ => allHold_cons ⟨h, nofun⟩
    (allHold_append.2 ⟨armsScoped_allHold ha, optionScoped_allHold ho⟩)
  | .subquery _, ⟨h, hq⟩ | .exist .., ⟨h, hq⟩ =>
    allHold_cons ⟨h, nofun⟩ (Select.Scoped.allHold hq)
  | .isIn .., ⟨h, ho, hq⟩ => allHold_cons (SqlExpr.Scoped.stands h ho rfl)
    (allHold_append.2 ⟨SqlExpr.Scoped.allHold ho, Select.Scoped.allHold hq⟩)

end

end Scoped

end SequenceQuery
