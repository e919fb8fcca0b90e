import SequenceQuery.Proofs.Separation
import SequenceQuery.Proofs.Supplied

namespace SequenceQuery

namespace Token

theorem spelled_of_isGap {t : Token} (h : t.isGap) : t.spelled := by
  cases t with
  | symbol s =>
    have hs : s ∈ ["(", ")", ","] := by simpa [isGap] using h
    simp only [List.mem_cons, List.not_mem_nil, or_false] at hs
    rcases hs with rfl | rfl | rfl <;> rfl
  | blank => rfl
  | _ => cases h

theorem isBeside_of_isGap {t t' : Token} (h : t.isGap ∨ t'.isGap) : isBeside t t' := by
  unfold isBeside
  split
  · rfl
  · rfl
  · simp only [Bool.or_eq_true]
    exact .inl h

namespace Flows

variable {ts us : List Token} {t : Token}

theorem nil : Flows [] := ⟨nofun, .nil⟩

theorem single (h : t.spelled) : Flows [t] := ⟨by simpa using h, .singleton t⟩

theorem cons (ht : t.spelled) (h : Flows ts) (hbeside : ∀ t' ∈ ts.head?, isBeside t t') :
    Flows (t :: ts) :=
  ⟨List.forall_mem_cons.2 ⟨ht, h.spelled⟩, List.isChain_cons.2 ⟨hbeside, h.beside⟩⟩

theorem gap (ht : t.isGap) (h : Flows ts) : Flows (t :: ts) :=
  h.cons (spelled_of_isGap ht) fun _ _ => isBeside_of_isGap (.inl ht)

end Flows

structure FlowsOn (ts : List Token) : Prop where
  flows : Flows ts
  gap : ∀ t ∈ ts.head?, t.isGap

section Parts

variable {ts us : List Token} {t : Token}

theorem FlowsOn.nil : FlowsOn [] := ⟨.nil, nofun⟩

theorem FlowsOn.cons (ht : t.isGap) (h : Flows ts) : FlowsOn (t :: ts) :=
  ⟨h.gap ht, by simpa using ht⟩

theorem Flows.append (h : Flows ts) (h' : FlowsOn us) : Flows (ts ++ us) where
  spelled := List.forall_mem_append.2 ⟨h.spelled, h'.flows.spelled⟩
  beside := h.beside.append h'.flows.beside fun _ _ t ht => isBeside_of_isGap (.inr (h'.gap t ht))

theorem FlowsOn.append (h : FlowsOn ts) (h' : FlowsOn us) : FlowsOn (ts ++ us) where
  flows := h.flows.append h'
  gap := by
    cases ts with
    | nil => exact h'.gap
    | cons t ts => exact h.gap

theorem Flows.words {ws : List String} (h : ws.all fun w => (Token.word w).spelled) :
    Flows (words ws) := by
  induction ws with
  | nil => exact .nil
  | cons w ws ih =>
    simp only [List.all_cons, Bool.and_eq_true] at h
    have hrest := ih h.2
    cases ws with
    | nil => exact .single h.1
    | cons => exact (Flows.single h.1).append (.cons rfl hrest)

theorem Flows.parens (h : Flows ts) : FlowsOn (parens ts) :=
  .cons rfl (h.append (.cons rfl .nil))

theorem Flows.parensIf (h : Flows ts) (wrap : Bool) : Flows (parensIf wrap ts) := by
  cases wrap with
  | false => exact h
  | true => exact h.parens.flows

theorem Flows.commaList {items : List (List Token)} (h : ∀ item ∈ items, Flows item) :
    Flows (commaList items) := by
  induction items with
  | nil => exact .nil
  | cons item items ih =>
    obtain ⟨hitem, hitems⟩ := List.forall_mem_cons.1 h
    cases items with
    | nil => exact hitem
    | cons => exact hitem.append (.cons rfl ((ih hitems).gap rfl))

theorem FlowsOn.clause {keyword : List String} {body : Option (List Token)}
    (hkeyword : keyword.all fun w => (Token.word w).spelled) (h : ∀ ts ∈ body, Flows ts) :
    FlowsOn (clause keyword body) := by
  cases body with
  | none => exact .nil
  | some body => exact .cons rfl ((Flows.words hkeyword).append (.cons rfl (h body rfl)))

theorem FlowsOn.listClause {keyword : List String} {items : List (List Token)}
    (hkeyword : keyword.all fun w => (Token.word w).spelled) (h : ∀ item ∈ items, Flows item) :
    FlowsOn (listClause keyword items) := by
  cases items with
  | nil => exact .nil
  | cons => exact .clause hkeyword fun _ hts => Option.some.inj hts ▸ .commaList h

theorem Flows.qualified (qualifier : Option String) (name : String) :
    Flows (qualified qualifier name) := by
  have hname : Flows [.ident name] := .single rfl
  cases qualifier with
  | none => exact hname
  | some q =>
    have hpoint : Flows [.symbol ".", .ident name] := hname.cons rfl fun _ ht => by
      cases ht
      rfl
    exact hpoint.cons rfl fun _ ht => by
      cases ht
      rfl

theorem Flows.labelled (h : Flows ts) (label : String) : Flows (labelled ts label) := by
  have hlabel : Flows [.ident label] := .single rfl
  have hword : Flows [.word "AS", .blank, .ident label] :=
    (Flows.single rfl).append (.cons rfl hlabel)
  exact h.append (.cons rfl hword)

end Parts

end Token

open Token

def SqlExpr.Spelled : SqlExpr → Prop
  | .literal value => value.token.spelled
  | .function name _ | .aggregate name _ _ => (Token.routine name).spelled
  | _ => True

section Statements

/-- Everything in the pieces can be scanned, and no star stands as an operand. -/
abbrev Scannable (pieces : List Piece) : Prop := AllHold (SqlExpr.Stands SqlExpr.Spelled) pieces

theorem standing {e : SqlExpr} {ps : List Piece} (h : Scannable (.expr e :: ps))
    (he : e ≠ .wildcard) : e.Stands SqlExpr.Spelled ∧ Scannable ps := by
  obtain ⟨hstands, hps⟩ := allHold_of_cons h
  exact ⟨hstands.resolve_left he, hps⟩

theorem begins_parensIf {ts : List Token} (h : ∃ t more, ts = t :: more ∧ isBeside minus t)
    (wrap : Bool) (us : List Token) :
    ∃ t more, parensIf wrap ts ++ us = t :: more ∧ isBeside minus t := by
  obtain ⟨t, more, rfl, hbeside⟩ := h
  cases wrap with
  | false => exact ⟨t, _, rfl, hbeside⟩
  | true => exact ⟨.symbol "(", _, rfl, rfl⟩

theorem SqlExpr.begins : ∀ e : SqlExpr, Scannable e.pieces → e ≠ .wildcard →
    ∃ t more, e.tokens = t :: more ∧ isBeside minus t
  | .column table name, _, _ => by cases table <;> exact ⟨_, _, rfl, rfl⟩
  | .literal value, _, _ => by
    refine ⟨_, _, rfl, ?_⟩
    cases value <;> rfl
  | .param _, _, _ | .function .., _, _ | .cases .., _, _ | .subquery _, _, _ | .nested _, _, _
  | .unary .not _, _, _ | .unary .minus _, _, _ => ⟨_, _, rfl, rfl⟩
  | .aggregate name _ _, _, _ => by
    simp only [SqlExpr.tokens]
    split <;> exact ⟨_, _, rfl, rfl⟩
  | .exist _ negated, _, _ => by cases negated <;> exact ⟨_, _, rfl, rfl⟩
  | .binary op left right, h, _ => by
    obtain ⟨⟨-, hfirst⟩, h⟩ := standing h nofun
    have hleft := left.begins (allHold_append.1 h).1 fun hstar => hfirst (congrArg some hstar)
    simp only [SqlExpr.tokens, List.append_assoc]
    exact begins_parensIf hleft _ _
  | .isNull operand _, h, _ => by
    obtain ⟨⟨-, hfirst⟩, h⟩ := standing h nofun
    have hoperand := operand.begins h fun hstar => hfirst (congrArg some hstar)
    exact begins_parensIf hoperand _ _
  | .isIn operand _ _, h, _ => by
    obtain ⟨⟨-, hfirst⟩, h⟩ := standing h nofun
    have hoperand := operand.begins (allHold_append.1 h).1 fun hstar => hfirst (congrArg some hstar)
    simp only [SqlExpr.tokens, List.append_assoc]
    exact begins_parensIf hoperand false _

mutual

theorem Select.flows : ∀ s : Select, Scannable s.pieces → Flows s.tokens
  | ⟨distinct, items, source, joins, filter, groupBy, having, orderBy, limit, offset, _⟩, h => by
    simp only [Select.pieces, allHold_append] at h
    obtain ⟨⟨⟨⟨⟨⟨⟨⟨hitems, hsource⟩, hjoins⟩, hfilter⟩, hgroups⟩, hhaving⟩, hkeys⟩, hlimit⟩,
      hoffset⟩ := h
    have hselect : Flows (words (if distinct then ["SELECT", "DISTINCT"] else ["SELECT"])) := by
      cases distinct <;> exact .words rfl
    have hlist : Flows (if items.isEmpty then [.symbol "*"] else commaList (itemTokens items)) := by
      split
      · exact .single rfl
      · exact .commaList (itemsFlow items hitems)
    have hhead := hselect.append (FlowsOn.cons (t := .blank) rfl hlist)
    have hfrom : FlowsOn (clause ["FROM"] (sourceTokens source)) :=
      .clause rfl (sourceFlows source hsource)
    have hwhere : FlowsOn (clause ["WHERE"] (optionTokens filter)) :=
      .clause rfl (optionFlows filter hfilter)
    have hgroup : FlowsOn (listClause ["GROUP", "BY"] (listTokens groupBy)) :=
      .listClause rfl (listFlows groupBy hgroups)
    have having' : FlowsOn (clause ["HAVING"] (optionTokens having)) :=
      .clause rfl (optionFlows having hhaving)
    have horder : FlowsOn (listClause ["ORDER", "BY"] (keyTokens orderBy)) :=
      .listClause rfl (keysFlow orderBy hkeys)
    have hlimit : FlowsOn (clause ["LIMIT"] (optionTokens limit)) :=
      .clause rfl (optionFlows limit hlimit)
    have hoffset : FlowsOn (clause ["OFFSET"] (optionTokens offset)) :=
      .clause rfl (optionFlows offset hoffset)
    have hclauses := hfrom.append ((joinsFlow joins hjoins).append (hwhere.append (hgroup.append
      (having'.append (horder.append (hlimit.append hoffset))))))
    have hall := hhead.append hclauses
    simpa only [Select.tokens, List.append_assoc, List.cons_append] using hall

theorem itemsFlow : ∀ items : List SelectItem, Scannable (itemPieces items) →
    ∀ ts ∈ itemTokens items, Flows ts
  | [], _ => nofun
  | .wildcard :: rest, h => List.forall_mem_cons.2 ⟨.single rfl, itemsFlow rest h⟩
  | .expr e none :: rest, h => by
    obtain ⟨he, hrest⟩ := allHold_append.1 h
    have hflows := e.flows (allHold_append.1 he).1
    exact List.forall_mem_cons.2 ⟨hflows, itemsFlow rest hrest⟩
  | .expr e (some label) :: rest, h => by
    obtain ⟨he, hrest⟩ := allHold_append.1 h
    have hflows := e.flows (allHold_append.1 he).1
    exact List.forall_mem_cons.2 ⟨hflows.labelled label, itemsFlow rest hrest⟩

theorem Table.flows : ∀ t : Table, Scannable t.pieces → Flows t.tokens
  | .table schema name label, _ => (Flows.qualified schema name).labelled label
  | .subquery query label, h =>
    (query.flows (allHold_append.1 h).1).parens.flows.labelled label

theorem sourceFlows : ∀ t : Option Table, Scannable (sourcePieces t) →
    ∀ ts ∈ sourceTokens t, Flows ts
  | none, _ => nofun
  | some t, h => fun _ hts => Option.some.inj hts ▸ t.flows h

theorem joinsFlow : ∀ joins : List Join, Scannable (joinPieces joins) → FlowsOn (joinTokens joins)
  | [], _ => .nil
  | ⟨kind, table, condition⟩ :: rest, h => by
    simp only [joinPieces, allHold_append] at h
    obtain ⟨⟨htable, hcondition⟩, hrest⟩ := h
    have htokens : ∀ ts ∈ some table.tokens, Flows ts :=
      fun _ hts => Option.some.inj hts ▸ table.flows htable
    have hjoin : FlowsOn (clause (match kind with | .inner => ["JOIN"] | .left => ["LEFT", "JOIN"])
        (some table.tokens)) := by
      cases kind <;> exact .clause rfl htokens
    have hon : FlowsOn (clause ["ON"] (some ((optionTokens condition).getD [.word "TRUE"]))) := by
      refine .clause rfl fun ts hts => ?_
      have hflows := optionFlows condition hcondition
      obtain rfl := Option.some.inj hts
      cases hcondition' : optionTokens condition with
      | none => exact .single rfl
      | some ts => exact hflows ts hcondition'
    exact (hjoin.append hon).append (joinsFlow rest hrest)

theorem keysFlow : ∀ keys : List SortKey, Scannable (keyPieces keys) →
    ∀ ts ∈ keyTokens keys, Flows ts
  | [], _ => nofun
  | ⟨e, ascending⟩ :: rest, h => by
    obtain ⟨he, hrest⟩ := allHold_append.1 h
    have hkey : Flows (if ascending then e.tokens else e.tokens ++ [.blank, .word "DESC"]) := by
      cases ascending with
      | true => exact e.flows he
      | false => exact (e.flows he).append (.cons rfl (.single rfl))
    exact List.forall_mem_cons.2 ⟨hkey, keysFlow rest hrest⟩

theorem optionFlows : ∀ e : Option SqlExpr, Scannable (optionPieces e) →
    ∀ ts ∈ optionTokens e, Flows ts
  | none, _ => nofun
  | some e, h => fun _ hts => Option.some.inj hts ▸ e.flows h

theorem listFlows : ∀ es : List SqlExpr, Scannable (listPieces es) →
    ∀ ts ∈ listTokens es, Flows ts
  | [], _ => nofun
  | e :: rest, h => by
    obtain ⟨he, hrest⟩ := allHold_append.1 h
    exact List.forall_mem_cons.2 ⟨e.flows he, listFlows rest hrest⟩

theorem armsFlow : ∀ arms : List (SqlExpr × SqlExpr), Scannable (armPieces arms) →
    FlowsOn (armTokens arms)
  | [], _ => .nil
  | (test, value) :: rest, h => by
    simp only [armPieces, allHold_append] at h
    obtain ⟨⟨htest, hvalue⟩, hrest⟩ := h
    have hwhen : FlowsOn (clause ["WHEN"] (some test.tokens)) :=
      .clause rfl fun _ hts => Option.some.inj hts ▸ test.flows htest
    have hthen : FlowsOn (clause ["THEN"] (some value.tokens)) :=
      .clause rfl fun _ hts => Option.some.inj hts ▸ value.flows hvalue
    exact (hwhen.append hthen).append (armsFlow rest hrest)

theorem SqlExpr.flows : ∀ e : SqlExpr, Scannable e.pieces → Flows e.tokens
  | .column table name, _ => .qualified table name
  | .literal value, h => .single (standing h nofun).1.1
  | .param _, _ => .single rfl
  | .wildcard, _ => .single rfl
  | .nested inner, h => (inner.flows (allHold_of_cons h).2).parens.flows
  | .binary op left right, h => by
    obtain ⟨hl, hr⟩ := allHold_append.1 (standing h nofun).2
    have hop : Flows [op.token] := .single (by cases op <;> rfl)
    have hright : Flows
        ([op.token] ++ .blank :: parensIf (right.bindsLooser op true) right.tokens) :=
      hop.append (.cons rfl ((right.flows hr).parensIf _))
    have hall := ((left.flows hl).parensIf (left.bindsLooser op false)).append
      (.cons (t := .blank) rfl hright)
    simpa [SqlExpr.tokens] using hall
  | .unary .not operand, h => by
    have hoperand := (operand.flows (standing h nofun).2).parensIf operand.isBinary
    exact (Flows.single rfl).append (.cons rfl hoperand)
  | .unary .minus operand, h => by
    obtain ⟨⟨-, hfirst⟩, h⟩ := standing h nofun
    have hoperand := (operand.flows h).parensIf operand.isBinary
    have hbegins := operand.begins h fun hstar => hfirst (congrArg some hstar)
    obtain ⟨t, more, htokens, hbeside⟩ := begins_parensIf hbegins operand.isBinary []
    rw [List.append_nil] at htokens
    refine hoperand.cons rfl fun t' ht' => ?_
    rw [htokens] at ht'
    cases ht'
    exact hbeside
  | .isNull operand negated, h => by
    have hoperand := (operand.flows (standing h nofun).2).parensIf operand.isBinary
    refine hoperand.append (.cons rfl (.words ?_))
    cases negated <;> rfl
  | .isIn operand query negated, h => by
    obtain ⟨ho, hq⟩ := allHold_append.1 (standing h nofun).2
    have hquery : FlowsOn (.blank :: parens query.tokens) :=
      .cons rfl (query.flows hq).parens.flows
    refine ((operand.flows ho).append (.cons rfl (.words ?_))).append hquery
    cases negated <;> rfl
  | .subquery query, h => (query.flows (standing h nofun).2).parens.flows
  | .exist query negated, h => by
    have hquery : FlowsOn (.blank :: parens query.tokens) :=
      .cons rfl (query.flows (standing h nofun).2).parens.flows
    refine (Flows.words ?_).append hquery
    cases negated <;> rfl
  | .function f args, h => by
    obtain ⟨⟨hname, -⟩, h⟩ := standing h nofun
    have hargs := Flows.commaList (listFlows args h)
    exact (Flows.single hname).append hargs.parens
  | .aggregate f args distinct, h => by
    obtain ⟨⟨hname, -⟩, h⟩ := standing h nofun
    have hargs := Flows.commaList (listFlows args h)
    have hall : Flows ((if distinct then [.word "DISTINCT", .blank] else []) ++
        commaList (listTokens args)) := by
      cases distinct with
      | false => exact hargs
      | true => exact (Flows.single rfl).append (.cons (t := .blank) rfl hargs)
    have hcall := (Flows.single hname).append hall.parens
    simp only [SqlExpr.tokens]
    split
    · have htype : FlowsOn (.blank :: words ["AS", "DOUBLE", "PRECISION"]) := .cons rfl (.words rfl)
      exact (Flows.single rfl).append (hcall.append htype).parens
    · exact hcall
  | .cases arms otherwise, h => by
    obtain ⟨harms, hotherwise⟩ := allHold_append.1 (standing h nofun).2
    have helse : FlowsOn (clause ["ELSE"] (optionTokens otherwise)) :=
      .clause rfl (optionFlows otherwise hotherwise)
    have hend : FlowsOn [.blank, .word "END"] := .cons rfl (.single rfl)
    have hcase : Flows [.word "CASE"] := .single rfl
    have hall := ((hcase.append (armsFlow arms harms)).append helse).append hend
    simpa [SqlExpr.tokens] using hall

end

end Statements

namespace Token

variable {sources : List Source}

theorem isData_lexeme {t : Token} {lexeme : Postgres.Lexeme}
    (h : t.lexeme? sources = some lexeme) : lexeme.isData = t.isData := by
  cases t with
  | blank => cases h
  | _ =>
    obtain rfl := Option.some.inj h
    rfl

theorem not_comment {t : Token} : t.lexeme? sources ≠ some .comment := by
  cases t <;> nofun

theorem data_lexemes (tokens : List Token) :
    (tokens.filterMap (lexeme? sources)).filter Postgres.Lexeme.isData =
      (data tokens).filterMap (lexeme? sources) := by
  induction tokens with
  | nil => rfl
  | cons t tokens ih =>
    have hdata : data (t :: tokens) = if t.isData then t :: data tokens else data tokens :=
      List.filter_cons
    rw [hdata]
    cases hlexeme : t.lexeme? sources with
    | none =>
      have ht : t.isData = false := by cases t <;> first | rfl | cases hlexeme
      simp [hlexeme, ht, ih]
    | some lexeme =>
      have ht := isData_lexeme hlexeme
      by_cases hd : t.isData <;> simp [hlexeme, ht, hd, ih]

end Token

/-- What a query is written with can be scanned. -/
theorem SqlExpr.Written.spelled {env : Surroundings} {ns : List Expr} {p : Progress} {e : SqlExpr}
    (henv : env.dialect = Postgres.dialect false) (h : Written env ns p e) : e.Spelled := by
  cases h with
  | null | anyText => rfl
  | bool b => cases b <;> rfl
  | count h =>
    simp only [List.mem_cons, List.not_mem_nil, or_false] at h
    rcases h with rfl | rfl | rfl <;> rfl
  | function h args =>
    rcases h with rfl | ⟨portable, hname⟩ | hpass
    · rfl
    · rw [henv] at hname
      simp only [Postgres.dialect, Postgres.functionName] at hname
      split at hname <;> cases hname <;> rfl
    · rw [henv] at hpass
      cases hpass
  | aggregate h args =>
    simp only [List.mem_cons, List.not_mem_nil, or_false] at h
    rcases h with rfl | rfl | rfl | rfl | rfl <;> rfl
  | _ => trivial

namespace Postgres

theorem characters_of_render {options : RenderOptions} {arguments : Arguments} {s : Select}
    {command : RenderedCommand} (hquote : options.quoteIdentifiers = true)
    (h : render options arguments s = .ok command) :
    command.text.toList = Token.characters (sourcesOf s.tokens) s.tokens := by
  have htext : command.text =
      String.join (s.tokens.map (tokenText options.quoteIdentifiers (sourcesOf s.tokens))) := by
    rw [render] at h
    cases hbound : boundParameters arguments (sourcesOf s.tokens) with
    | error failure =>
      rw [hbound] at h
      cases h
    | ok parameters =>
      rw [hbound] at h
      cases h
      rfl
  rw [htext, hquote, String.toList_join, List.flatMap_map]
  rfl

end Postgres

namespace Form

variable {catalog : Catalog} {e : Expr} {f : Form}

theorem scannable (h : ofExpr catalog (Postgres.dialect false) e = .ok f) {s : Select}
    (hs : s ∈ f.select.withNested e) : Scannable s.pieces := by
  obtain ⟨p, hfits, -, -⟩ := fits_ofExpr h
  have hpieces := f.select.withNested_among e s hs
  intro e' he'
  refine (hfits.allHold e' (hpieces he')).imp_right fun hstands => ⟨?_, hstands.2⟩
  exact hstands.1.spelled rfl

/-- A command is scanned as the tokens of its statement, and so as the names and literals of the
form, in their order and without a comment, exactly if no minus sign stands directly behind
another. -/
theorem scanned_ofExpr (h : ofExpr catalog (Postgres.dialect false) e = .ok f) {s : Select}
    (hs : s ∈ f.select.withNested e) {options : RenderOptions} {arguments : Arguments}
    {command : RenderedCommand} (hquote : options.quoteIdentifiers = true)
    (hcommand : Postgres.render options arguments s = .ok command) :
    let lexemes := Postgres.lexemes command.text
    let lexeme? := Token.lexeme? (Postgres.sourcesOf s.tokens)
    (¬[Token.minus, Token.minus] <:+: s.tokens →
      lexemes = s.tokens.filterMap lexeme? ∧
      lexemes.filter Postgres.Lexeme.isData = (s.pieces.flatMap Piece.data).filterMap lexeme? ∧
      .comment ∉ lexemes) ∧
    ([Token.minus, Token.minus] <:+: s.tokens → .comment ∈ lexemes) := by
  intro lexemes lexeme?
  obtain ⟨hscan, hcomment⟩ := Token.scan_characters (Postgres.sourcesOf s.tokens)
    (s.flows (scannable h hs))
  rw [← Postgres.characters_of_render hquote hcommand] at hscan hcomment
  refine ⟨fun hnot => ?_, hcomment⟩
  have hlexemes : lexemes = s.tokens.filterMap lexeme? := hscan hnot
  refine ⟨hlexemes, ?_, ?_⟩
  · rw [hlexemes, Token.data_lexemes, Select.data_tokens]
  · rw [hlexemes]
    intro hmem
    obtain ⟨t, -, ht⟩ := List.mem_filterMap.1 hmem
    exact Token.not_comment ht

/-- A table and a column with quotes and the beginnings of comments in their names. -/
def awkwardAges : Catalog :=
  ⟨[⟨"Person", "people\"--", some "o'sch/*", [⟨"Age", "age\"/*", .int, false, false⟩]⟩]⟩

/-- `Person.Where(p => -p.Age > 1)`. -/
def negatedAge : Expr :=
  .call 0 .filter [.entity 1 "Person", .lambda 2 ["p"] (.binary 3 .greaterThan
    (.unary 4 .negate (.member 5 (.param 6 "p") "Age")) (.const 7 (.int 1)))]

theorem scanned_negatedAge : ∃ f command,
    ofExpr awkwardAges (Postgres.dialect false) negatedAge = .ok f ∧
      Postgres.render ⟨true, false⟩ (Setting.ownArguments negatedAge f) f.select = .ok command ∧
      (Postgres.lexemes command.text).filter Postgres.Lexeme.isData =
        [.ident "t0", .ident "age\"/*", .ident "o'sch/*", .ident "people\"--", .ident "t0",
          .ident "t0", .ident "age\"/*", .placeholder "1"] ∧
      .comment ∉ Postgres.lexemes command.text := by
  obtain ⟨f, hf⟩ : ∃ f, ofExpr awkwardAges (Postgres.dialect false) negatedAge = .ok f := ⟨_, rfl⟩
  obtain ⟨command, hcommand⟩ : ∃ command,
      Postgres.render ⟨true, false⟩ (Setting.ownArguments negatedAge f) f.select = .ok command := by
    cases hf
    exact ⟨_, rfl⟩
  obtain ⟨hscan, -⟩ := scanned_ofExpr hf List.mem_cons_self rfl hcommand
  have hapart : ¬[Token.minus, Token.minus] <:+: f.select.tokens := by
    cases hf
    decide
  obtain ⟨-, hdata, hcomment⟩ := hscan hapart
  refine ⟨f, command, hf, hcommand, ?_, hcomment⟩
  rw [hdata]
  cases hf
  rfl

/-- `Person.Where(p => - -p.Age > 1)`. -/
def negatedTwice : Expr :=
  .call 0 .filter [.entity 1 "Person", .lambda 2 ["p"] (.binary 3 .greaterThan
    (.unary 4 .negate (.unary 5 .negate (.member 6 (.param 7 "p") "Age"))) (.const 8 (.int 1)))]

/-- The two signs begin a comment, which takes the rest of the command. -/
theorem comment_negatedTwice : ∃ f command,
    ofExpr ages (Postgres.dialect false) negatedTwice = .ok f ∧
      Postgres.render ⟨true, false⟩ (Setting.ownArguments negatedTwice f) f.select = .ok command ∧
      (Postgres.lexemes command.text).getLast? = some .comment := by
  exact ⟨_, _, rfl, rfl, by decide⟩

end Form

end SequenceQuery
