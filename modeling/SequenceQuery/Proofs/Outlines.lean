import SequenceQuery.Form.Basic
import SequenceQuery.Proofs.Candidates
import SequenceQuery.Proofs.Layout

namespace SequenceQuery

theorem findNamed?_key {α : Type} {name : String} (h : Text.sameFold name "key") (a : α) :
    Text.findNamed? Prod.fst name [("key", a)] = some ("key", a) := by
  have hfold : Text.sameFold "key" name = true := by
    rw [Text.sameFold, beq_iff_eq] at h ⊢
    exact h.symm
  simp only [Text.findNamed?, List.find?_cons, List.find?_nil, hfold]
  cases "key" == name <;> rfl

section Parts

variable {α : Type} {a : α} {read : Binding → Composite α} {env : Surroundings} {scope : Scope}

structure Binding.ReadsParts (a : α) (read : Binding → Composite α) : Prop where
  scalar (s : Scalar) : read (.scalar s) = .one a
  object (fields : List (String × Binding)) :
    read (.object fields) = .parts (fields.map fun f => (f.1, read f.2))
  member {b found : Binding} {name : String} {node : Expr} (h : b.member name node = .ok found) :
    ((read b).part? name).getD (.one a) = read found

def Scope.parts (read : Binding → Composite α) (scope : Scope) : List (String × Composite α) :=
  scope.map fun entry => (entry.1, read entry.2)

mutual

/-- The parts of what an expression is bound to can be told from the expression. -/
theorem meaning_parts (h : Binding.ReadsParts a read) : ∀ e : Expr,
    Yields False ((e.meaning env).asBinding scope)
      (fun b => read b = e.partsIn a (scope.parts read)) False
  | .entity .. | .lambda .. | .segment .. => .unsupported _ _
  | .call .. | .const .. | .binary .. | .unary .. | .function .. | .conditional .. =>
    (Yields.any _).bind fun s _ => .pure (h.scalar s)
  | .param _ name => .lift fun b hb => by
    rw [Expr.partsIn, Scope.parts, lookup_map, lookUp_ok hb]
    rfl
  | .member _ target name => (meaning_parts h target).bind fun b hb =>
    .lift fun found hfound => by rw [Expr.partsIn, ← hb, h.member hfound]
  | .object _ fields => (fieldMeanings_parts h fields).bind fun bs hbs =>
    .pure (by rw [h.object, hbs, Expr.partsIn])

theorem fieldMeanings_parts (h : Binding.ReadsParts a read) : ∀ fields : List (String × Expr),
    Yields False (Meaning.bindFields scope (fieldMeanings env fields))
      (fun bs => bs.map (fun f => (f.1, read f.2)) =
        Expr.fieldPartsIn a (scope.parts read) fields) False
  | [] => .pure rfl
  | (name, e) :: rest => (meaning_parts h e).bind fun b hb =>
    (fieldMeanings_parts h rest).bind fun bs hbs => .pure (by
      rw [List.map_cons, hb, hbs, Expr.fieldPartsIn])

end

def Expr.resultIn (a : α) (scope : List (String × Composite α)) (elements : List (Composite α)) :
    Expr → Composite α
  | .lambda _ params body => body.partsIn a ((params.zip elements).reverse ++ scope)
  | _ => .one a

theorem apply_parts (h : Binding.ReadsParts a read) (selector : Expr) (elements : List Binding) :
    Yields False ((selector.meaning env).apply scope elements) (fun b => read b =
      selector.resultIn a (scope.parts read) (elements.map read)) False := by
  cases selector with
  | lambda i params body =>
    show Yields _ ((Meaning.ofLambda _ params (body.meaning env)).apply scope elements) _ _
    rw [Meaning.ofLambda]
    dsimp only
    split
    · refine (meaning_parts h body).imp fun b hb => hb.trans ?_
      rw [Expr.resultIn, Scope.parts, List.map_append, List.map_reverse, List.zip_map_right]
      rfl
    · exact .unsupported _ _
  | _ => exact .unsupported _ _

end Parts

/-- What a row is made of: values of no name, rows of tables, and parts with names. -/
abbrev Outline := Composite (Option Entity)

namespace Composite

mutual

/-- The names that the columns of a row have below a path. A value without a path has no name that
can be told from the outline. -/
def names (path : String) : Outline → List (Option String)
  | .one none => [if path = "" then none else some path]
  | .one (some entity) => entity.properties.map fun p => some (Binding.subpath path p.column)
  | .parts fields => fieldNames path fields

def fieldNames (path : String) : List (String × Outline) → List (Option String)
  | [] => []
  | (name, o) :: rest => o.names (Binding.subpath path name) ++ fieldNames path rest

end

end Composite

def IsNamed {α : Type} (nameOf : α → String) (name : Option String) (a : α) : Prop :=
  ∀ n ∈ name, nameOf a = n

namespace Binding

mutual

def outline : Binding → Outline
  | .record _ entity _ _ => .one (some entity)
  | .object fields => .parts (fieldOutlines fields)
  | .scalar _ => .one none
  | .group key _ => .parts [("key", key.outline)]

def fieldOutlines : List (String × Binding) → List (String × Outline)
  | [] => []
  | (name, b) :: rest => (name, b.outline) :: fieldOutlines rest

end

theorem fieldOutlines_eq_map (fields : List (String × Binding)) :
    fieldOutlines fields = fields.map fun f => (f.1, f.2.outline) := by
  induction fields with
  | nil => rfl
  | cons f fields ih => rw [fieldOutlines, ih, List.map_cons]

theorem readsParts_outline : ReadsParts none outline where
  scalar _ := rfl
  object fields := congrArg Composite.parts (fieldOutlines_eq_map fields)
  member {b found name node} h := by
    cases member_ok h with
    | column hp => rfl
    | field hf =>
      have hkey : ∀ f : String × Binding, (f.1, f.2.outline).1 = f.1 := fun _ => rfl
      rw [outline, Composite.part?, fieldOutlines_eq_map, findNamed?_map hkey, hf]
      rfl
    | key hname =>
      rw [outline, Composite.part?, findNamed?_key hname]
      rfl

mutual

theorem outline_readFrom (label : String) : ∀ (path : String) (b : Binding),
    (b.readFrom label path).outline = b.outline
  | _, .record .. | _, .scalar _ | _, .group .. => rfl
  | path, .object fields => congrArg Composite.parts (outlines_readFieldsFrom label path fields)

theorem outlines_readFieldsFrom (label : String) : ∀ (path : String)
    (fields : List (String × Binding)),
    fieldOutlines (readFieldsFrom label path fields) = fieldOutlines fields
  | _, [] => rfl
  | path, (name, b) :: rest => by
    rw [readFieldsFrom, fieldOutlines, fieldOutlines, outline_readFrom label _ b,
      outlines_readFieldsFrom label path rest]

end

mutual

theorem outline_asOptional : ∀ b : Binding, b.asOptional.outline = b.outline
  | .record .. | .scalar _ | .group .. => rfl
  | .object fields => congrArg Composite.parts (outlines_fieldsAsOptional fields)

theorem outlines_fieldsAsOptional : ∀ fields : List (String × Binding),
    fieldOutlines (fieldsAsOptional fields) = fieldOutlines fields
  | [] => rfl
  | (name, b) :: rest => by
    rw [fieldsAsOptional, fieldOutlines, fieldOutlines, outline_asOptional b,
      outlines_fieldsAsOptional rest]

end

mutual

theorem named_leaves? : ∀ (b : Binding) {path : String} {ls : List Leaf},
    b.leaves? path = some ls → List.Forall₂ (IsNamed Leaf.name) (b.outline.names path) ls
  | .record _ entity .., path, ls, h => by
    rw [← Option.some.inj h, outline, Composite.names, List.forall₂_map_left_iff,
      List.forall₂_map_right_iff, List.forall₂_same]
    exact fun p _ n hn => Option.mem_some.1 hn
  | .object fields, path, ls, h => named_fieldLeaves? fields h
  | .scalar s, path, ls, h => by
    rw [← Option.some.inj h, outline, Composite.names]
    refine .cons (fun n hn => ?_) .nil
    split at hn
    · cases hn
    case isFalse hpath =>
      rw [← Option.mem_some.1 hn]
      exact if_neg hpath
  | .group .., _, _, h => nomatch h

theorem named_fieldLeaves? : ∀ (fields : List (String × Binding)) {path : String}
    {ls : List Leaf}, fieldLeaves? path fields = some ls →
      List.Forall₂ (IsNamed Leaf.name) (Composite.fieldNames path (fieldOutlines fields)) ls
  | [], _, ls, h => by
    rw [← Option.some.inj h]
    exact .nil
  | (name, b) :: rest, path, ls, h => by
    obtain ⟨first, hfirst, h⟩ := Option.bind_eq_some_iff.1 h
    obtain ⟨others, hothers, h⟩ := Option.bind_eq_some_iff.1 h
    rw [← Option.some.inj h]
    exact List.rel_append (named_leaves? b hfirst) (named_fieldLeaves? rest hothers)

end

end Binding

def Scope.outlines (scope : Scope) : List (String × Outline) := scope.parts Binding.outline

namespace Expr

/-- What the rows of a sequence, or of the result of a query, are made of. -/
def rowOutline (catalog : Catalog) (scope : List (String × Outline)) : Expr → Outline
  | .entity _ name => .one (catalog.entity? name)
  | .call _ .project (source :: selector :: _) =>
    selector.resultIn none scope [source.rowOutline catalog scope]
  | .call _ .groupBy (source :: key :: _) =>
    .parts [("key", key.resultIn none scope [source.rowOutline catalog scope])]
  | .call _ .join (outer :: inner :: _ :: _ :: result :: _)
  | .call _ .leftJoin (outer :: inner :: _ :: _ :: result :: _) =>
    result.resultIn none scope [outer.rowOutline catalog scope, inner.rowOutline catalog scope]
  | .call _ .count _ | .call _ .longCount _ | .call _ .any _ | .call _ .all _
  | .call _ .contains _ | .call _ .sum _ | .call _ .min _ | .call _ .max _
  | .call _ .average _ => .one none
  | .call _ _ (source :: _) => source.rowOutline catalog scope
  | _ => .one none

end Expr

def Expr.Outlines (env : Surroundings) (e : Expr) : Prop :=
  ∀ inRun scope, Yields False ((e.meaning env).asSequence inRun scope)
    (fun rows => rows.row.outline = e.rowOutline env.catalog scope.outlines) False

section Sequences

variable {env : Surroundings} {node : Expr} {scope : Scope} {rows : Rows} {args : List Expr}
  {source e : Expr} {m : Meaning}

theorem apply_outline (selector : Expr) (elements : List Binding) :
    Yields False ((selector.meaning env).apply scope elements) (fun b => b.outline =
      selector.resultIn none scope.outlines (elements.map Binding.outline)) False :=
  apply_parts Binding.readsParts_outline selector elements

theorem wrapIf_outline (rows : Rows) (condition : Bool) (node : Expr) :
    Yields False (rows.wrapIf condition node) (fun rows' => rows'.row.outline = rows.row.outline)
      False := by
  cases condition with
  | false => exact .pure rfl
  | true =>
    exact .bind (.any _) fun s _ => .bind (.any _) fun label _ =>
      .pure (Binding.outline_readFrom label "" rows.row)

theorem restrict_outline (rows : Rows) (m : Meaning) (negate : Bool) (node : Expr)
    (scope : Scope) : Yields False (restrict rows m negate node scope)
      (fun rows' => rows'.row.outline = rows.row.outline) False := by
  rw [restrict]
  dsimp only
  split
  · split
    · exact .refused _ _
    · exact .bind (.any _) fun _ _ => .pure rfl
  · exact (wrapIf_outline rows _ node).bind fun rows' hrows =>
      .bind (.any _) fun _ _ => .pure hrows

theorem argument_outline (k : Nat) : Yields False
    (liftM (argument node (meanings env args) k)) (fun m => ∃ e, args[k]? = some e ∧
      m = e.meaning env) False :=
  .lift fun _ hm => argument_meanings hm

theorem orderRows_outline (restart ascending : Bool) (hsource : source.Outlines env) :
    Yields False (orderRows restart ascending node (meanings env (source :: args)) scope)
      (fun rows => rows.row.outline = source.rowOutline env.catalog scope.outlines) False := by
  refine .bindOk ((hsource false scope).bind fun rows hrows => ?_)
  refine (wrapIf_outline rows _ node).bind fun rows' hwrapped => ?_
  refine .bind (.any _) fun key _ => .bind (.any _) fun _ _ => .bind (.any _) fun _ _ => ?_
  exact .pure (hwrapped.trans hrows)

theorem joinRows_outline (kind : JoinKind) (hsource : source.Outlines env)
    (ha : ∀ e ∈ args, e.Outlines env) :
    Yields False (joinRows kind node (meanings env (source :: args)) scope) (fun rows =>
      ∃ inner result, args[0]? = some inner ∧ args[3]? = some result ∧
        rows.row.outline = result.resultIn none scope.outlines
          [source.rowOutline env.catalog scope.outlines,
            inner.rowOutline env.catalog scope.outlines]) False := by
  refine .bindOk ((hsource false scope).bind fun outer houter => ?_)
  refine (wrapIf_outline outer _ node).bind fun outer' houter' => ?_
  refine (argument_outline 1).bind ?_
  rintro _ ⟨inner, hinner, rfl⟩
  refine (ha inner (List.mem_of_getElem? hinner) false scope).bind fun rows hrows => ?_
  refine (wrapIf_outline rows _ node).bind fun rows' hrows' => ?_
  cases rows'.select.source with
  | none => exact .unsupported _ _
  | some table =>
    refine .bind (.any _) fun _ _ => .bind (.any _) fun _ _ => .bind (.any _) fun _ _ =>
      .bind (.any _) fun _ _ => .bind (.any _) fun _ _ => .bind (.any _) fun _ _ => ?_
    dsimp only
    split
    · exact .refused _ _
    refine (argument_outline 4).bind ?_
    rintro _ ⟨result, hresult, rfl⟩
    have hkind : (kind.innerRow rows'.row).outline = rows'.row.outline := by
      rcases kind.innerRow_eq rows'.row with heq | heq <;> rw [heq]
      exact rows'.row.outline_asOptional
    refine (apply_outline result _).bind fun row hrow => .pure ⟨inner, result, hinner, hresult, ?_⟩
    have hmade : row.outline = result.resultIn none scope.outlines
        [outer'.row.outline, (kind.innerRow rows'.row).outline] := hrow
    rw [hmade, hkind, hrows', hrows, houter', houter]

/-- What a call makes of its arguments can be told from what they are made of. -/
theorem callRows_outline {i : NodeId} {op : Operator} (ha : ∀ e ∈ args, e.Outlines env) :
    Yields False (callRows env node op (meanings env args) scope) (fun rows => rows.row.outline =
      (Expr.call i op args).rowOutline env.catalog scope.outlines) False := by
  refine (argument_outline 0).bind ?_
  rintro _ ⟨source, hsource, rfl⟩
  obtain ⟨args, rfl⟩ := List.head?_eq_some_iff.1 (List.head?_eq_getElem?.trans hsource)
  have hrows := fun inRun => ha source List.mem_cons_self inRun scope
  have hrest := fun e he => ha e (List.mem_cons_of_mem _ he)
  cases op with
  | filter =>
    refine (hrows false).bind fun rows hrows => .bind (.any _) fun _ _ => ?_
    exact (restrict_outline rows _ false node scope).imp fun _ h => h.trans hrows
  | project =>
    refine (hrows false).bind fun rows hrows => ?_
    refine (wrapIf_outline rows _ node).bind fun rows' hwrapped => (argument_outline 1).bind ?_
    rintro _ ⟨selector, hselector, rfl⟩
    obtain ⟨more, rfl⟩ := List.head?_eq_some_iff.1 (List.head?_eq_getElem?.trans hselector)
    refine (apply_outline selector _).bind fun row hrow => .pure (hrow.trans ?_)
    rw [List.map_cons, List.map_nil, hwrapped, hrows]
    rfl
  | orderBy | orderByDescending | thenBy | thenByDescending =>
    exact orderRows_outline _ _ (ha source List.mem_cons_self)
  | skip | take =>
    refine .bind (.any _) fun _ _ => (hrows false).bind fun rows hrows => ?_
    refine .bind (.any _) fun _ _ => .bind (.any _) fun _ _ => ?_
    exact (wrapIf_outline rows _ node).bind fun rows' hwrapped => .pure (hwrapped.trans hrows)
  | segment =>
    refine .bind (.any _) fun _ _ => (hrows false).bind fun rows hrows => ?_
    refine .bind (.any _) fun segment _ => ?_
    cases env.slot? segment.node.id with
    | none => exact .unsupported _ _
    | some slot =>
      exact (wrapIf_outline rows _ node).bind fun rows' hwrapped => .pure (hwrapped.trans hrows)
  | distinct =>
    refine (hrows false).bind fun rows hrows => ?_
    refine (wrapIf_outline rows _ node).bind fun rows' hwrapped => ?_
    dsimp only
    split
    · exact .refused _ _
    · exact .pure (hwrapped.trans hrows)
  | groupBy =>
    refine (hrows false).bind fun rows hrows => ?_
    refine (wrapIf_outline rows _ node).bind fun rows' hwrapped => (argument_outline 1).bind ?_
    rintro _ ⟨key, hkey, rfl⟩
    obtain ⟨more, rfl⟩ := List.head?_eq_some_iff.1 (List.head?_eq_getElem?.trans hkey)
    refine (apply_outline key _).bind fun b hb => ?_
    have hgroup : ∀ element, (Binding.group b element).outline = .parts [("key",
        key.resultIn none scope.outlines [source.rowOutline env.catalog scope.outlines])] := by
      intro element
      rw [Binding.outline, hb, List.map_cons, List.map_nil, hwrapped, hrows]
    split
    · exact .bind (.any _) fun element _ => .bind (.any _) fun _ _ => .pure (hgroup element)
    · exact .bind (.any _) fun element _ => .bind (.any _) fun _ _ => .pure (hgroup element)
  | join | leftJoin =>
    refine (joinRows_outline _ (ha source List.mem_cons_self) hrest).imp ?_
    rintro rows ⟨inner, result, hinner, hresult, hrow⟩
    obtain ⟨rest, rfl⟩ := List.head?_eq_some_iff.1 (List.head?_eq_getElem?.trans hinner)
    match rest, hresult with
    | _ :: _ :: result :: _, hresult =>
      cases hresult
      exact hrow
  | _ => exact .throw _

/-- A call that pages is made of what its source is made of. -/
theorem rowOutline_of_pages {i : NodeId} {op : Operator} {catalog : Catalog}
    {outlines : List (String × Outline)} (hop : op.pages = true)
    (hsource : args[0]? = some source) : (Expr.call i op args).rowOutline catalog outlines =
      source.rowOutline catalog outlines := by
  obtain ⟨rest, rfl⟩ := List.head?_eq_some_iff.1 (List.head?_eq_getElem?.trans hsource)
  cases op <;> first | rfl | cases hop

theorem outlines_ofCall {i : NodeId} {op : Operator} (ha : ∀ e ∈ args, e.Outlines env)
    (hmarker : env.marker = some i → op.pages = true) : (Expr.call i op args).Outlines env := by
  intro inRun scope
  show Yields _ (sequenceOfCall env (.call i op args) op (meanings env args) inRun scope) _ _
  rw [sequenceOfCall]
  split
  case isTrue hstep =>
    have hop : op.pages = true := by
      cases op <;> first | rfl | simp [Expr.isPagingStep] at hstep
    refine (argument_outline 0).bind ?_
    rintro _ ⟨source, hsource, rfl⟩
    rw [rowOutline_of_pages hop hsource]
    exact ha source (List.mem_of_getElem? hsource) true scope
  case isFalse =>
    split
    case isTrue hself =>
      refine .bind (.any _) fun _ _ => (argument_outline 0).bind ?_
      rintro _ ⟨source, hsource, rfl⟩
      rw [rowOutline_of_pages (hmarker hself) hsource]
      refine (ha source (List.mem_of_getElem? hsource) _ scope).bind fun rows hrows => ?_
      exact (wrapIf_outline rows _ _).bind fun rows' hwrapped =>
        .bind (.any _) fun _ _ => .pure (hwrapped.trans hrows)
    case isFalse => exact (callRows_outline ha).bind fun _ h => .pure h

theorem outlines_ofEntity (i : NodeId) (name : String) : (Expr.entity i name).Outlines env := by
  intro inRun scope
  show Yields _ ((Meaning.ofEntity env (.entity i name) name).asSequence inRun scope) _ _
  rw [Meaning.ofEntity, Expr.rowOutline]
  dsimp only
  cases env.catalog.entity? name with
  | none => exact .throw _
  | some entity => exact .bind (.any _) fun label _ => .pure rfl

def Surroundings.MarksPaging (env : Surroundings) (ns : List Expr) : Prop :=
  ∀ i op args, .call i op args ∈ ns → env.marker = some i → op.pages = true

variable {ns : List Expr}

mutual

theorem meaning_outlines (hmarker : env.MarksPaging ns) : ∀ e : Expr, e.nodes ⊆ ns → e.Outlines env
  | .call i op args, h => by
    obtain ⟨hcall, hargs⟩ := List.cons_subset.1 h
    exact outlines_ofCall (meanings_outline hmarker args hargs) (hmarker i op args hcall)
  | .entity i name, _ => outlines_ofEntity i name
  | .lambda .., _ | .param .., _ | .member .., _ | .const .., _ | .segment .., _ | .binary .., _
  | .unary .., _ | .function .., _ | .object .., _ | .conditional .., _ =>
    fun _ _ => .unsupported _ _

theorem meanings_outline (hmarker : env.MarksPaging ns) : ∀ es : List Expr,
    Expr.nodesOfList es ⊆ ns → ∀ e ∈ es, e.Outlines env
  | [], _ => List.forall_mem_nil _
  | e :: rest, h => by
    obtain ⟨he, hrest⟩ := List.append_subset.1 h
    exact List.forall_mem_cons.2
      ⟨meaning_outlines hmarker e he, meanings_outline hmarker rest hrest⟩

end

end Sequences

section Roots

variable {env : Surroundings} {node source e : Expr} {args : List Expr} {rows : Rows} {s : Select}
  {names : List (Option String)}

/-- The statement selects an expression for each name, under the name where there is one. -/
def Select.Names (names : List (Option String)) (s : Select) : Prop :=
  List.Forall₂ (fun name item => ∃ e label, item = .expr e label ∧
    ∀ n ∈ name, SelectItem.columnName e label = n) names s.items

theorem Select.names_value {e : SqlExpr} (h : s.items = [.expr e none]) :
    s.Names (Composite.names "" (.one none)) := by
  rw [Select.Names, h]
  exact .cons ⟨e, none, rfl, nofun⟩ .nil

theorem columnName_item (e : SqlExpr) (name : String) :
    ∃ label, Rows.item e name = .expr e label ∧ SelectItem.columnName e label = name := by
  cases e with
  | column table n =>
    by_cases hn : n = name
    · exact ⟨none, by rw [Rows.item, if_pos hn], hn⟩
    · exact ⟨some name, by rw [Rows.item, if_neg hn], rfl⟩
  | _ => exact ⟨some name, rfl, rfl⟩

theorem names_project (h : rows.project node = .ok s) : s.Names (rows.row.outline.names "") := by
  rw [Rows.project] at h
  cases hcolumns : rows.row.columns node with
  | error failure => rw [hcolumns] at h; cases h
  | ok ls =>
    rw [hcolumns] at h
    cases h
    have hnamed := rows.row.named_leaves? (Binding.leaves_of_columns hcolumns).1
    refine List.forall₂_map_right_iff.2 (hnamed.imp fun name l hl => ?_)
    obtain ⟨label, hitem, hname⟩ := columnName_item l.scalar.expr l.name
    exact ⟨_, label, hitem, fun n hn => hname.trans (hl n hn)⟩

theorem filtered_outline (i : Nat) (hsource : source.Outlines env) :
    Yields False (filtered node (source.meaning env) (meanings env args)[i]? [])
      (fun rows => rows.row.outline = source.rowOutline env.catalog []) False := by
  refine (hsource false []).bind fun rows hrows => ?_
  cases (meanings env args)[i]? with
  | none => exact .pure hrows
  | some p => exact (restrict_outline rows p false node []).imp fun _ h => h.trans hrows

theorem singleRow_names (nullable unique : Bool) (hsource : source.Outlines env) :
    Yields False (singleRow node (meanings env (source :: args)) nullable unique [])
      (fun t => (t.atRoot env node).1.Names ((source.rowOutline env.catalog []).names ""))
      False := by
  refine .bindOk ((filtered_outline 0 hsource).bind fun rows hrows => ?_)
  refine (wrapIf_outline rows _ node).bind fun rows' hwrapped => ?_
  refine .bind (.lift fun s hs => names_project hs) fun s hs => .pure ?_
  rwa [← hrows, ← hwrapped]

theorem terminal_names {i : NodeId} {op : Operator} (ha : ∀ e ∈ args, e.Outlines env) :
    Yields False (terminal node op (meanings env args) []) (fun t => (t.atRoot env node).1.Names
      (((Expr.call i op args).rowOutline env.catalog []).names "")) False := by
  refine (argument_outline 0).bind ?_
  rintro _ ⟨source, hsource, rfl⟩
  obtain ⟨rest, rfl⟩ := List.head?_eq_some_iff.1 (List.head?_eq_getElem?.trans hsource)
  cases op with
  | first | firstOrDefault | single | singleOrDefault =>
    exact singleRow_names _ _ (ha source List.mem_cons_self)
  | count | longCount =>
    exact .bind (.any _) fun _ _ => .bind (.any _) fun _ _ => .pure (Select.names_value rfl)
  | any => exact .bind (.any _) fun _ _ => .pure (Select.names_value rfl)
  | all =>
    exact .bind (.any _) fun _ _ => .bind (.any _) fun _ _ => .bind (.any _) fun _ _ =>
      .pure (Select.names_value rfl)
  | contains =>
    refine .bind (.any _) fun rows _ => ?_
    cases rows.row with
    | scalar element =>
      exact .bind (.any _) fun _ _ => .bind (.any _) fun _ _ => .pure (Select.names_value rfl)
    | _ => exact .unsupported _ _
  | sum | min | max | average =>
    exact .bind (.any _) fun _ _ => .bind (.any _) fun _ _ => .bind (.any _) fun _ _ =>
      .pure (Select.names_value rfl)
  | _ => exact .throw _

/-- The columns of the statement at the root have the names that the query gives them. -/
theorem atRoot_names (hmarker : env.MarksPaging e.nodes) : Yields False (atRoot env e)
    (fun a => a.1.Names ((e.rowOutline env.catalog []).names "")) False := by
  have sequence : Yields False (sequenceAtRoot env e)
      (fun a => a.1.Names ((e.rowOutline env.catalog []).names "")) False := by
    refine (meaning_outlines hmarker e (List.Subset.refl _) false []).bind fun rows hrows => ?_
    refine .bind (.lift fun s hs => names_project hs) fun s hs => .pure ?_
    rwa [hrows] at hs
  cases e with
  | call i op args =>
    rw [atRoot]
    split
    · have ha := meanings_outline hmarker args (List.subset_cons_self (Expr.call i op args) _)
      exact (terminal_names ha).bind fun t ht => .pure ht
    · exact sequence
  | _ => exact sequence

variable {engine : Engine} {db : Database} {arguments : Arguments} {outer : Env}

theorem names_itemRecord {items : List SelectItem} (own : Env) (group : List Env) (row : Env)
    (hne : names ≠ [])
    (h : List.Forall₂ (fun name item => ∃ e label, item = .expr e label ∧
      ∀ n ∈ name, SelectItem.columnName e label = n) names items) :
    List.Forall₂ (IsNamed Prod.fst) names
      (itemRecord engine db arguments own items group row) := by
  induction h with
  | nil => exact absurd rfl hne
  | @cons name item names items hitem hrest ih =>
    obtain ⟨e, label, rfl, hname⟩ := hitem
    cases hrest with
    | nil => exact .cons hname .nil
    | cons hitem' hrest => exact .cons hname (ih (List.cons_ne_nil _ _))

theorem Select.Names.records (h : s.Names names) (hne : names ≠ []) :
    ∀ r ∈ s.records engine db arguments outer, List.Forall₂ (IsNamed Prod.fst) names r := by
  intro r hr
  obtain ⟨own, g, -, rfl⟩ := Select.mem_records hr
  exact names_itemRecord own g.1 g.2 hne h

end Roots

def Expr.columnNames (catalog : Catalog) (e : Expr) : List (Option String) :=
  (e.rowOutline catalog []).names ""

/-- The columns that a form selects have the names that its query gives them. -/
theorem Form.names_ofExpr {catalog : Catalog} {dialect : Dialect} {e : Expr} {f : Form}
    (hid : e.Identified) (h : ofExpr catalog dialect e = .ok f) :
    f.select.Names (e.columnNames catalog) := by
  obtain ⟨progress, hrun, -⟩ := ofExpr_ok h
  have hmarker : (Surroundings.ofExpr catalog dialect e).MarksPaging e.nodes :=
    fun i op args hcall hself => Expr.pages_of_marker hid hcall hself
  exact (atRoot_names hmarker _ False.elim _ _ hrun).1

namespace Composite

mutual

def expand : Outline → ElementType
  | .one none => .one ()
  | .one (some entity) => entity.type
  | .parts fields => .parts (expandFields fields)

def expandFields : List (String × Outline) → List (String × ElementType)
  | [] => []
  | (name, o) :: rest => (name, o.expand) :: expandFields rest

end

mutual

theorem length_names (path : String) : ∀ o : Outline,
    (o.names path).length = o.expand.leaves.length
  | .one none => rfl
  | .one (some entity) => by
    rw [names, expand, Entity.type, Entity.leaves_compose, List.length_map, List.length_map]
  | .parts fields => length_fieldNames path fields

theorem length_fieldNames (path : String) : ∀ fields : List (String × Outline),
    (fieldNames path fields).length = (leavesOfFields (expandFields fields)).length
  | [] => rfl
  | (name, o) :: rest => by
    rw [fieldNames, expandFields, leavesOfFields, List.length_append, List.length_append,
      length_names _ o, length_fieldNames path rest]

end

theorem names_ne_nil {path : String} {o : Outline} (h : o.expand.leaves ≠ []) :
    o.names path ≠ [] := by
  rw [ne_eq, ← List.length_eq_zero_iff] at h ⊢
  rwa [length_names]

theorem expandFields_eq_map (fields : List (String × Outline)) :
    expandFields fields = fields.map fun f => (f.1, f.2.expand) := by
  induction fields with
  | nil => rfl
  | cons f fields ih => rw [expandFields, ih, List.map_cons]

theorem part?_expand (o : Outline) (name : String) :
    (o.expand.part? name).getD (.one ()) = ((o.part? name).getD (.one none)).expand := by
  match o with
  | .one none => rfl
  | .one (some entity) =>
    rw [expand, Entity.type, Entity.part?_compose]
    cases entity.find? name <;> rfl
  | .parts fields =>
    have hkey : ∀ f : String × Outline, (f.1, f.2.expand).1 = f.1 := fun _ => rfl
    rw [expand, part?, expandFields_eq_map, findNamed?_map hkey, part?]
    cases Text.findNamed? Prod.fst name fields <;> rfl

end Composite

namespace Expr

variable {scope : List (String × Outline)}

mutual

theorem expand_partsIn : ∀ e : Expr,
    (e.partsIn none scope).expand = e.typeIn (scope.map fun entry => (entry.1, entry.2.expand))
  | .param _ name => by
    rw [typeIn, partsIn, partsIn, lookup_map]
    cases scope.lookup name <;> rfl
  | .member _ target name => by
    rw [typeIn, partsIn, partsIn, ← typeIn, ← expand_partsIn target, Composite.part?_expand]
  | .object _ fields => congrArg Composite.parts (expand_fieldPartsIn fields)
  | .entity .. | .lambda .. | .segment .. | .call .. | .const .. | .binary .. | .unary ..
  | .function .. | .conditional .. => rfl

theorem expand_fieldPartsIn : ∀ fields : List (String × Expr),
    Composite.expandFields (fieldPartsIn none scope fields) =
      fieldPartsIn () (scope.map fun entry => (entry.1, entry.2.expand)) fields
  | [] => rfl
  | (name, e) :: rest => by
    rw [fieldPartsIn, fieldPartsIn, Composite.expandFields, expand_partsIn e,
      expand_fieldPartsIn rest]
    rfl

end

theorem expand_resultIn (i : NodeId) (p : String) (body : Expr) (o : Outline) :
    ((Expr.lambda i [p] body).resultIn none [] [o]).expand = body.typeIn [(p, o.expand)] :=
  expand_partsIn body

end Expr

end SequenceQuery
