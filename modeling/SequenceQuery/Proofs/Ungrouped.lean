import SequenceQuery.Proofs.Meanings
import SequenceQuery.Proofs.Restrictions

namespace SequenceQuery

namespace Binding

mutual

theorem isPlain_asOptional : ∀ b : Binding, b.isPlain → b.asOptional.isPlain
  | .record .., _ => rfl
  | .object fields, h => fieldsArePlain_fieldsAsOptional fields h
  | .scalar _, h => h
  | .group .., h => nomatch h

theorem fieldsArePlain_fieldsAsOptional : ∀ fields : List (String × Binding),
    fieldsArePlain fields → fieldsArePlain (fieldsAsOptional fields)
  | [], _ => rfl
  | (_, b) :: rest, h => by
    obtain ⟨hb, hrest⟩ := (Bool.and_eq_true _ _).mp h
    rw [fieldsAsOptional, fieldsArePlain, isPlain_asOptional b hb,
      fieldsArePlain_fieldsAsOptional rest hrest]
    rfl

end

theorem hasAggregate_of_asScalar {b : Binding} (hb : b.isPlain) {node : Expr} {s : Scalar}
    (hs : b.asScalar node = .ok s) : s.expr.hasAggregate = false := by
  obtain rfl := asScalar_ok hs
  simpa [isPlain] using hb

end Binding

def Scope.IsPlain (scope : Scope) : Prop := ∀ entry ∈ scope, entry.2.isPlain

theorem Scope.isPlain_nil : Scope.IsPlain [] := List.forall_mem_nil _

/-- A meaning that aggregates nothing unless something in scope is a group. -/
structure Meaning.IsPlain (m : Meaning) : Prop where
  asBinding : ∀ scope : Scope, scope.IsPlain →
    Yields False (m.asBinding scope) (fun b => b.isPlain) False
  apply : ∀ scope : Scope, scope.IsPlain → ∀ elements : List Binding,
    (∀ b ∈ elements, b.isPlain) →
      Yields False (m.apply scope elements) (fun b => b.isPlain) False

section Values

variable {m left right : Meaning} {args : List Meaning} {scope : Scope} (node : Expr)

theorem asScalar_plain (hm : m.IsPlain) (hs : scope.IsPlain) :
    Yields False (m.asScalar scope) (fun s => s.expr.hasAggregate = false) False :=
  (hm.asBinding scope hs).bind fun _ hb => .lift fun _ h => Binding.hasAggregate_of_asScalar hb h

theorem scalars_plain (ha : ∀ m ∈ args, m.IsPlain) (hs : scope.IsPlain) :
    Yields False (Meaning.scalars scope args)
      (fun ss => anyAggregate (ss.map Scalar.expr) = false) False := by
  induction args with
  | nil => exact .pure rfl
  | cons m args ih =>
    obtain ⟨hm, ha⟩ := List.forall_mem_cons.1 ha
    refine (asScalar_plain hm hs).bind fun s hscalar => (ih ha).bind fun ss hscalars => .pure ?_
    rw [List.map_cons, anyAggregate, hscalar, hscalars]
    rfl

theorem bindFields_plain {fields : List (String × Meaning)}
    (hfields : ∀ field ∈ fields, field.2.IsPlain) (hs : scope.IsPlain) :
    Yields False (Meaning.bindFields scope fields) (fun bs => Binding.fieldsArePlain bs) False := by
  induction fields with
  | nil => exact .pure rfl
  | cons field fields ih =>
    obtain ⟨hm, hfields⟩ := List.forall_mem_cons.1 hfields
    refine (hm.asBinding scope hs).bind fun b hb => (ih hfields).bind fun bs hbs => .pure ?_
    rw [Binding.fieldsArePlain, hb, hbs]
    rfl

theorem aggregateOfGroup_plain (op : Operator) (ha : ∀ m ∈ args, m.IsPlain)
    (hs : scope.IsPlain) :
    Yields False (aggregateOfGroup node op args scope) (fun found => found = none) False := by
  cases args with
  | nil => exact .pure rfl
  | cons source rest =>
    rw [aggregateOfGroup_cons node []]
    split
    · refine ((ha source List.mem_cons_self).asBinding scope hs).bind fun b hb => ?_
      cases b with
      | group => cases hb
      | _ => exact .pure rfl
    · exact .pure rfl

/-- Only the operand of an IN is a value of the statement that the terminal operator stands in. -/
def Terminal.IsPlain (t : Terminal) : Prop :=
  ∀ value select, t = .isIn value select → value.hasAggregate = false

theorem terminal_plain (op : Operator) (ha : ∀ m ∈ args, m.IsPlain) (hs : scope.IsPlain) :
    Yields False (terminal node op args scope) Terminal.IsPlain False := by
  have single : ∀ nullable unique,
      Yields False (singleRow node args nullable unique scope) Terminal.IsPlain False := by
    intro nullable unique
    refine (Yields.any _).bind fun _ _ => (Yields.any _).bind fun _ _ => ?_
    exact (Yields.any _).bind fun _ _ => (Yields.any _).bind fun _ _ => .pure nofun
  refine (Yields.any _).bind fun source _ => ?_
  cases op with
  | first | firstOrDefault | single | singleOrDefault => exact single _ _
  | count | longCount =>
    exact (Yields.any _).bind fun _ _ => (Yields.any _).bind fun _ _ => .pure nofun
  | any => exact (Yields.any _).bind fun _ _ => .pure nofun
  | all =>
    refine (Yields.any _).bind fun _ _ => (Yields.any _).bind fun _ _ => ?_
    exact (Yields.any _).bind fun _ _ => .pure nofun
  | contains =>
    refine (Yields.any _).bind fun rows _ => ?_
    cases rows.row with
    | scalar element =>
      refine .bind (.lift fun m hm => ha m (mem_of_argument hm))
        fun m hm => ?_
      refine (asScalar_plain hm hs).bind fun value hvalue => .pure fun _ _ heq => ?_
      cases heq
      exact hvalue
    | _ => exact .unsupported _ _
  | sum | min | max | average =>
    refine (Yields.any _).bind fun _ _ => (Yields.any _).bind fun _ _ => ?_
    exact (Yields.any _).bind fun _ _ => .pure nofun
  | _ => exact .throw _

theorem scalarOfCall_plain (op : Operator) (ha : ∀ m ∈ args, m.IsPlain) (hs : scope.IsPlain) :
    Yields False (scalarOfCall node op args scope) (fun s => s.expr.hasAggregate = false)
      False := by
  refine (aggregateOfGroup_plain node op ha hs).bind fun found hfound => ?_
  subst hfound
  dsimp only
  split
  · exact .refused _ _
  refine (terminal_plain node op ha hs).bind fun t ht => ?_
  cases t with
  | single select row _ _ =>
    cases row with
    | scalar s => exact .pure rfl
    | _ => exact .unsupported _ _
  | exist | scalar => exact .pure rfl
  | isIn value select => exact .pure (ht value select rfl)

theorem scalarOfBinary_plain (op : BinaryOp) (hl : left.IsPlain) (hr : right.IsPlain)
    (hs : scope.IsPlain) : Yields False (scalarOfBinary op left right scope)
      (fun s => s.expr.hasAggregate = false) False := by
  rw [scalarOfBinary]
  cases htest : nullTest? op left right with
  | some test =>
    obtain ⟨m, negated⟩ := test
    have hm : m.IsPlain := by
      rcases nullTest?_operand htest with rfl | rfl
      · exact hl
      · exact hr
    exact (asScalar_plain hm hs).bind fun s h => .pure h
  | none =>
    refine (asScalar_plain hl hs).bind fun l hleft => ?_
    refine (asScalar_plain hr hs).bind fun r hright => ?_
    cases sqlBinary? op with
    | some op =>
      refine .pure ?_
      rw [SqlExpr.hasAggregate, hleft, hright]
      rfl
    | none =>
      refine .pure ?_
      simp [SqlExpr.coalesce, SqlExpr.hasAggregate, anyAggregate, hleft, hright]

theorem scalarOfFunction_plain (env : Surroundings) (name : String)
    (ha : ∀ m ∈ args, m.IsPlain) (hs : scope.IsPlain) :
    Yields False (scalarOfFunction env node name args scope)
      (fun s => s.expr.hasAggregate = false) False := by
  have hargument : ∀ {i : Nat} {m : Meaning}, argument node args i = .ok m → m.IsPlain :=
    fun h => ha _ (mem_of_argument h)
  rw [scalarOfFunction]
  split
  case isTrue hsearch =>
    refine .bind (.lift fun m hm => hargument hm) fun m hm => ?_
    refine (asScalar_plain hm hs).bind fun text htext => ?_
    refine .bind (.lift fun m hm => hargument hm) fun m hm => ?_
    refine (asScalar_plain hm hs).bind fun needle hneedle => .pure ?_
    have hpattern : ((searchPattern? (Text.lower name) needle.expr).getD
        needle.expr).hasAggregate = false := by
      cases hpattern : searchPattern? (Text.lower name) needle.expr with
      | none => exact hneedle
      | some pattern => exact (pattern_of_searchPattern? hpattern hneedle).1
    rw [SqlExpr.hasAggregate, htext, hpattern]
    rfl
  case isFalse =>
    refine (scalars_plain ha hs).bind fun ss hss => ?_
    cases env.dialect.functionName (Text.lower name) with
    | some mapped => exact .pure hss
    | none =>
      dsimp only
      split
      · exact .pure hss
      · exact .thrown _

theorem lookUp_plain {name : String} {b : Binding} (hs : scope.IsPlain)
    (h : lookUp scope name node = .ok b) : b.isPlain :=
  hs _ (mem_of_lookUp h)

theorem plain_ofBinding {reason : Unsupported} {binding : Scope → Build Binding}
    (h : ∀ scope : Scope, scope.IsPlain → Yields False (binding scope) (fun b => b.isPlain) False) :
    (Meaning.ofBinding node reason binding).IsPlain :=
  ⟨h, fun _ _ _ _ => .unsupported _ _⟩

theorem plain_ofScalar {scalar : Scope → Build Scalar} (h : ∀ scope : Scope, scope.IsPlain →
    Yields False (scalar scope) (fun s => s.expr.hasAggregate = false) False) :
    (Meaning.ofScalar node scalar).IsPlain := by
  refine ⟨fun scope hs => (h scope hs).bind fun s hscalar => .pure ?_,
    fun _ _ _ _ => .unsupported _ _⟩
  rw [Binding.isPlain, hscalar]
  rfl

theorem plain_ofCall (env : Surroundings) (op : Operator) (ha : ∀ m ∈ args, m.IsPlain) :
    (Meaning.ofCall env node op args).IsPlain := by
  refine ⟨fun scope hs => (scalarOfCall_plain node op ha hs).bind fun s hscalar => .pure ?_,
    fun _ _ _ _ => .unsupported _ _⟩
  rw [Binding.isPlain, hscalar]
  rfl

theorem plain_ofLambda (params : List String) {body : Meaning} (hbody : body.IsPlain) :
    (Meaning.ofLambda node params body).IsPlain := by
  refine ⟨fun _ _ => .unsupported _ _, fun scope hs elements helements => ?_⟩
  dsimp only [Meaning.ofLambda]
  split
  · refine hbody.asBinding _ fun entry hentry => ?_
    rcases List.mem_append.1 hentry with hentry | hentry
    · exact helements _ (List.of_mem_zip (List.mem_reverse.1 hentry)).2
    · exact hs entry hentry
  · exact .unsupported _ _

theorem plain_ofConstant (env : Surroundings) (value : Value) :
    (Meaning.ofConstant env node value).IsPlain := by
  refine plain_ofScalar node fun scope _ => ?_
  split
  · exact .pure rfl
  · split
    · exact .pure rfl
    · exact .unsupported _ _

theorem plain_ofEntity (env : Surroundings) (name : String) :
    (Meaning.ofEntity env node name).IsPlain :=
  ⟨fun _ _ => .unsupported _ _, fun _ _ _ _ => .unsupported _ _⟩

end Values

section

variable (env : Surroundings)

mutual

theorem meaning_plain : ∀ e : Expr, (e.meaning env).IsPlain
  | .entity _ name => plain_ofEntity _ env name
  | .call _ op args => plain_ofCall _ env op (meanings_plain args)
  | .lambda _ params body => plain_ofLambda _ params (meaning_plain body)
  | .param _ name => plain_ofBinding _ fun _ hs => .lift fun _ h => lookUp_plain _ hs h
  | .member _ target name => plain_ofBinding _ fun scope hs =>
    ((meaning_plain target).asBinding scope hs).bind fun _ hb =>
      .lift fun _ h => (Binding.member_composite hb h).1
  | .const _ value => plain_ofConstant _ env value
  | .segment .. => plain_ofBinding _ fun _ _ => .unsupported _ _
  | .binary _ op left right => plain_ofScalar _ fun _ hs =>
    scalarOfBinary_plain op (meaning_plain left) (meaning_plain right) hs
  | .unary _ op operand => plain_ofScalar _ fun _ hs =>
    (asScalar_plain (meaning_plain operand) hs).bind fun s h => by
      cases op <;> exact .pure h
  | .function _ name args => plain_ofScalar _ fun _ hs =>
    scalarOfFunction_plain _ env name (meanings_plain args) hs
  | .object _ fields => plain_ofBinding _ fun _ hs =>
    (bindFields_plain (fieldMeanings_plain fields) hs).bind fun _ h => .pure h
  | .conditional _ test ifTrue ifFalse => plain_ofScalar _ fun _ hs =>
    (asScalar_plain (meaning_plain test) hs).bind fun t ht =>
      (asScalar_plain (meaning_plain ifTrue) hs).bind fun a ha =>
        (asScalar_plain (meaning_plain ifFalse) hs).bind fun b hb => .pure (by
          simp only [SqlExpr.hasAggregate, armsAggregate, ht, ha, hb, Bool.or_false])

theorem meanings_plain : ∀ es : List Expr, ∀ m ∈ meanings env es, m.IsPlain
  | [] => nofun
  | e :: rest => List.forall_mem_cons.2 ⟨meaning_plain e, meanings_plain rest⟩

theorem fieldMeanings_plain : ∀ fields : List (String × Expr),
    ∀ field ∈ fieldMeanings env fields, field.2.IsPlain
  | [] => nofun
  | (_, e) :: rest => List.forall_mem_cons.2 ⟨meaning_plain e, fieldMeanings_plain rest⟩

end

end

def Operator.keepsRows : Operator → Bool
  | .filter | .project | .orderBy | .orderByDescending | .thenBy | .thenByDescending
  | .skip | .take | .segment | .distinct => true
  | _ => false

/-- Sequences that no grouping is part of, whatever stands in their lambdas. -/
inductive Expr.Ungrouped : Expr → Prop
  | entity {id : NodeId} {name : String} : Ungrouped (.entity id name)
  | call {id : NodeId} {op : Operator} {source : Expr} {rest : List Expr}
    (hop : op.keepsRows) (h : Ungrouped source) :
    Ungrouped (.call id op (source :: rest))
  | join {id : NodeId} {op : Operator} {outer inner : Expr} {rest : List Expr}
    (hop : op = .join ∨ op = .leftJoin) (houter : Ungrouped outer) (hinner : Ungrouped inner) :
    Ungrouped (.call id op (outer :: inner :: rest))

structure Rows.IsUngrouped (rows : Rows) : Prop where
  hasGroups : rows.select.hasGroups = false
  having : rows.select.having = none
  row : rows.row.isPlain

theorem Rows.IsUngrouped.aggregatesGroups {rows : Rows} (h : rows.IsUngrouped) :
    rows.AggregatesGroups :=
  fun _ _ => ⟨h.having, h.row⟩

section

variable {env : Surroundings} {node : Expr} {rows : Rows} {scope : Scope} {m : Meaning}
  {args : List Meaning}

theorem Rows.IsUngrouped.wrapIf (h : rows.IsUngrouped) (condition : Bool) (node : Expr) :
    Yields False (rows.wrapIf condition node) Rows.IsUngrouped False := by
  intro p _ base q hrun
  refine ⟨?_, False.elim⟩
  obtain ⟨-, rfl, -⟩ | ⟨-, hwrap⟩ := Rows.wrapIf_cases hrun
  · exact h
  · obtain ⟨s, hs, -, rfl⟩ := Rows.wrap_ok.1 hwrap
    obtain ⟨ls, hls, -⟩ := Rows.project_ok.1 hs
    exact ⟨rfl, rfl, Binding.isPlain_readFrom _ _ (Binding.leaves_of_columns hls).1⟩

def Meaning.IsUngrouped (scope : Scope) (m : Meaning) : Prop :=
  ∀ inRun, Yields False (m.asSequence inRun scope) Rows.IsUngrouped False

theorem restrict_ungrouped (h : rows.IsUngrouped) (predicate : Meaning) (negate : Bool) :
    Yields False (restrict rows predicate negate node scope) Rows.IsUngrouped False := by
  rw [restrict]
  simp only [Binding.isGroup_of_isPlain h.row, Bool.false_eq_true, if_false]
  refine (h.wrapIf _ node).bind fun rows hrows => (Yields.any _).bind fun _ _ => .pure ?_
  exact ⟨hrows.hasGroups, hrows.having, hrows.row⟩

theorem argument_yields {i : Nat} {P : Meaning → Prop} (h : ∀ m, args[i]? = some m → P m) :
    Yields False (liftM (argument node args i)) P False :=
  .lift fun m hm => h m (getElem?_of_argument hm)

theorem orderRows_ungrouped (restart ascending : Bool) (hsource : m.IsUngrouped scope) :
    Yields False (orderRows restart ascending node (m :: args) scope) Rows.IsUngrouped False := by
  refine .bindOk ((hsource false).bind fun rows hrows => ?_)
  refine (hrows.wrapIf _ node).bind fun rows hrows => (Yields.any _).bind fun _ _ => ?_
  refine (Yields.any _).bind fun _ _ => (Yields.any _).bind fun _ _ => .pure ?_
  exact ⟨hrows.hasGroups, hrows.having, hrows.row⟩

theorem callRows_ungrouped {op : Operator} (hop : op.keepsRows)
    (hsource : m.IsUngrouped scope) (ha : ∀ m ∈ args, m.IsPlain) (hs : scope.IsPlain) :
    Yields False (callRows env node op (m :: args) scope) Rows.IsUngrouped False := by
  refine .bindOk ?_
  cases op with
  | filter =>
    refine (hsource false).bind fun rows hrows => (Yields.any _).bind fun predicate _ => ?_
    exact restrict_ungrouped hrows predicate false
  | project =>
    refine (hsource false).bind fun rows hrows => (hrows.wrapIf _ node).bind fun rows hrows => ?_
    have hselector : ∀ selector, (m :: args)[1]? = some selector → selector.IsPlain :=
      fun selector h => ha selector (List.mem_of_getElem? (i := 0) h)
    refine (argument_yields hselector).bind fun selector hm => ?_
    refine (hm.apply scope hs [rows.row] (List.forall_mem_singleton.2 hrows.row)).bind
      fun b hb => .pure ?_
    exact ⟨hrows.hasGroups, hrows.having, hb⟩
  | orderBy | orderByDescending | thenBy | thenByDescending =>
    exact orderRows_ungrouped _ _ hsource
  | skip | take =>
    refine (Yields.any _).bind fun _ _ => (hsource false).bind fun rows hrows => ?_
    refine (Yields.any _).bind fun _ _ => (Yields.any _).bind fun _ _ => ?_
    refine (hrows.wrapIf _ node).bind fun rows hrows => .pure ?_
    exact ⟨hrows.hasGroups, hrows.having, hrows.row⟩
  | segment =>
    refine (Yields.any _).bind fun _ _ => (hsource false).bind fun rows hrows => ?_
    refine (Yields.any _).bind fun segment _ => ?_
    cases env.slot? segment.node.id with
    | none => exact .unsupported _ _
    | some slot =>
      refine (hrows.wrapIf _ node).bind fun rows hrows => .pure ?_
      exact ⟨hrows.hasGroups, hrows.having, hrows.row⟩
  | distinct =>
    refine (hsource false).bind fun rows hrows => (hrows.wrapIf _ node).bind fun rows hrows => ?_
    simp only [Binding.isGroup_of_isPlain hrows.row, Bool.false_eq_true, if_false]
    exact .pure ⟨hrows.hasGroups, hrows.having, hrows.row⟩
  | _ => cases hop

theorem joinRows_ungrouped (kind : JoinKind) {outer inner : Meaning}
    (houter : outer.IsUngrouped scope) (hinner : inner.IsUngrouped scope)
    (ha : ∀ m ∈ args, m.IsPlain) (hs : scope.IsPlain) :
    Yields False (joinRows kind node (outer :: inner :: args) scope) Rows.IsUngrouped False := by
  have hresult : ∀ m, (outer :: inner :: args)[4]? = some m → m.IsPlain :=
    fun m hm => ha m (List.mem_of_getElem? (i := 2) hm)
  refine .bindOk ((houter false).bind fun outer houter => ?_)
  refine (houter.wrapIf _ node).bind fun outer houter => .bindOk ?_
  refine (hinner false).bind fun inner hinner => (hinner.wrapIf _ node).bind fun inner hinner => ?_
  cases inner.select.source with
  | none => exact .unsupported _ _
  | some table =>
    refine (Yields.any _).bind fun _ _ => (Yields.any _).bind fun outerKey _ => ?_
    refine (Yields.any _).bind fun _ _ => (Yields.any _).bind fun innerKey _ => ?_
    refine (Yields.any _).bind fun outerKeys _ => (Yields.any _).bind fun innerKeys _ => ?_
    dsimp only
    split
    · exact .refused _ _
    refine (argument_yields hresult).bind fun result hm => ?_
    refine (hm.apply scope hs _ (List.forall_mem_cons.2 ⟨houter.row,
      List.forall_mem_singleton.2 ?_⟩)).bind fun row hrow => .pure ?_
    · cases kind with
      | inner => exact hinner.row
      | left => exact Binding.isPlain_asOptional _ hinner.row
    · exact ⟨houter.hasGroups, houter.having, hrow⟩

theorem markerRows_ungrouped (op : Operator) (hsource : m.IsUngrouped scope) :
    Yields False (markerRows env node op (m :: args) scope) Rows.IsUngrouped False := by
  refine (Yields.any _).bind fun _ _ => .bindOk ((hsource _).bind fun rows hrows => ?_)
  refine (hrows.wrapIf _ node).bind fun rows hrows => (Yields.any _).bind fun _ _ => .pure ?_
  exact ⟨hrows.hasGroups, hrows.having, hrows.row⟩

theorem sequenceOfCall_ungrouped {op : Operator} (hsource : m.IsUngrouped scope)
    (hcall : Yields False (callRows env node op (m :: args) scope) Rows.IsUngrouped False)
    (inRun : Bool) :
    Yields False (sequenceOfCall env node op (m :: args) inRun scope) Rows.IsUngrouped False := by
  rw [sequenceOfCall]
  split
  · exact .bindOk (hsource true)
  · split
    · exact markerRows_ungrouped op hsource
    · refine hcall.bind fun rows hrows => .pure ?_
      exact ⟨hrows.hasGroups, hrows.having, hrows.row⟩

/-- A sequence without a grouping has ungrouped rows where nothing in scope is a group. -/
theorem Expr.Ungrouped.asSequence {e : Expr} (h : e.Ungrouped) (hs : scope.IsPlain) :
    (e.meaning env).IsUngrouped scope := by
  induction h with
  | entity =>
    intro inRun
    dsimp only [Expr.meaning, Meaning.ofEntity]
    split
    · exact .throw _
    · exact (Yields.any _).bind fun label _ => .pure ⟨rfl, rfl, rfl⟩
  | call hop _ ih =>
    exact fun inRun => sequenceOfCall_ungrouped ih
      (callRows_ungrouped hop ih (meanings_plain env _) hs) inRun
  | join hop _ _ houter hinner =>
    refine fun inRun => sequenceOfCall_ungrouped houter ?_ inRun
    rcases hop with rfl | rfl
    · exact .bindOk (joinRows_ungrouped .inner houter hinner (meanings_plain env _) hs)
    · exact .bindOk (joinRows_ungrouped .left houter hinner (meanings_plain env _) hs)

end

end SequenceQuery
