import SequenceQuery.Proofs.Composition
import SequenceQuery.Proofs.NestedParts
import SequenceQuery.Proofs.Supplied
import SequenceQuery.Proofs.Transparency

namespace SequenceQuery

variable {env : Surroundings} {root node source e : Expr} {start stop : Nat} {bound : Nat → Nat}
  {scope : Scope} {p : Progress} {rest parts : List Expr} {i : NodeId} {op : Operator}

section Values

theorem aggregateIn_lie
    (ha : Expr.LaidOut env root start stop bound node (source :: rest)) (hs : scope.Plain)
    {b : Binding} (hb : b.groups = 0) :
    Builds p (aggregateIn node op (meanings env rest) scope b) fun _ found =>
      ∀ s ∈ found, Laid root start stop (node.readsTable = false) s.expr.contents := by
  have hle : start ≤ stop := by
    have := ha.first
    have := ha.le 0
    omega
  have hcolumns : ∀ {key element : Binding}, b = .group key element → element.contents = 0 := by
    rintro key element rfl
    exact Multiset.le_zero.1 ((Multiset.le_add_left _ _).trans_eq hb)
  have said : ∀ {element : Binding} {m : Meaning}, element.contents = 0 →
      (meanings env rest)[0]? = some m → Builds p (m.applyScalar scope element) fun _ s =>
        Laid root start stop (node.readsTable = false) s.expr.contents := by
    intro element m helement hm
    rw [meanings_eq_map, List.getElem?_map] at hm
    obtain ⟨e, he, rfl⟩ := Option.map_eq_some_iff.1 hm
    have hmem := List.mem_cons_of_mem source (List.mem_of_getElem? he)
    refine ((ha.lies (k := 1) he).applyScalar hs fun _ => helement).imp fun _ _ _ hscalar => ?_
    have hfirst : start ≤ bound 1 := by
      have := ha.first
      have := ha.mono (Nat.zero_le 1)
      omega
    exact (hscalar.widen hfirst (ha.le _)).imp fun hidle => ha.idle hidle e hmem
  refine builds_aggregateIn (Q := fun _ s => Laid root start stop (node.readsTable = false)
    s.expr.contents) (fun _ => .zero hle) (fun hgroup _ hpredicate => ?_)
    fun {key element} hgroup _ => ?_
  · refine (said (hcolumns hgroup) hpredicate).imp fun q s _ htest => ?_
    simpa only [SqlExpr.contents, SqlExpr.aggregateOf, SqlExpr.nestedSelects, nestedOfList,
      nestedOfArms, nestedOfOption, SqlExpr.int, List.append_nil] using htest
  · have hvalue : Builds p (selected node (meanings env rest)[0]? element scope) fun _ s =>
        Laid root start stop (node.readsTable = false) s.expr.contents := by
      cases hselector : (meanings env rest)[0]? with
      | none =>
        refine .lift fun s hscalar => ?_
        rw [Binding.contents_asScalar hscalar, hcolumns hgroup]
        exact .zero hle
      | some selector => exact said (hcolumns hgroup) hselector
    refine hvalue.imp fun q s _ h => ?_
    rw [contents_aggregateOver]
    exact h

theorem terminalOfCall_lie (ha : Expr.LaidOut env root start stop bound (.call i op parts) parts)
    (hplaced : ∀ s : Select, s.origin = some (.call i op parts) → s.place root = start)
    (hcall : .call i op parts ∈ root.nodes) (hop : op.isTerminal = true) (hs : scope.Plain) :
    Builds p (terminal (.call i op parts) op (meanings env parts) scope) fun _ t =>
      Laid root start stop ((Expr.call i op parts).readsTable = false) t.contents := by
  cases parts with
  | nil => exact Builds.check nofun
  | cons source rest =>
    refine terminal_lie ha (fun s horigin => ?_) hcall hs
    have hplace := hplaced s horigin
    exact ⟨⟨i, op, source, rest, hcall, hop, .inl horigin⟩, hplace.ge, hplace.le.trans (Nat.le_succ _)⟩

theorem scalarOfCall_lie (ha : Expr.LaidOut env root start stop bound (.call i op parts) parts)
    (hplaced : ∀ s : Select, s.origin = some (.call i op parts) → s.place root = start)
    (hcall : .call i op parts ∈ root.nodes) (hs : scope.Plain) :
    Builds p (scalarOfCall (.call i op parts) op (meanings env parts) scope) fun _ s =>
      Laid root start stop ((Expr.call i op parts).readsTable = false) s.expr.contents := by
  refine builds_call (builds_aggregateOfGroup fun {source rest} hargs _ => ?_)
    (fun _ hop => terminalOfCall_lie ha hplaced hcall hop hs) id id id id
  cases parts with
  | nil => cases hargs
  | cons part parts =>
    cases hargs
    exact (ha.head.asBinding hs).bind fun q b _ hb => aggregateIn_lie ha hs hb.2

section

variable {idle : Prop}

theorem scalars_lie {es : List Expr} {b : Nat → Nat}
    (ha : ∀ {k} {e : Expr}, es[k]? = some e → (e.meaning env).Lies root (b k) (b (k + 1)) e)
    (hidle : idle → ∀ e ∈ es, e.readsTable = false) (hs : scope.Plain) :
    Builds p (Meaning.scalars scope (meanings env es)) fun _ ss =>
      Laid root (b 0) (b es.length) idle (contentsOf (ss.map Scalar.expr)) := by
  induction es generalizing b p with
  | nil => exact .pure (.zero le_rfl)
  | cons e es ih =>
    have he := ha (k := 0) rfl
    refine (he.asScalar hs).bind fun q s _ hfirst => ?_
    refine (ih (b := fun k => b (k + 1)) (fun h => ha (k := _ + 1) h)
      fun h e he => hidle h e (List.mem_cons_of_mem _ he)).bind fun r ss _ hothers => .pure ?_
    exact (hfirst.imp fun h => hidle h e List.mem_cons_self).add hothers le_rfl

theorem bindFields_lie {fields : List (String × Expr)} {b : Nat → Nat}
    (ha : ∀ {k} {e : Expr}, (fields.map Prod.snd)[k]? = some e →
      (e.meaning env).Lies root (b k) (b (k + 1)) e)
    (hidle : idle → ∀ e ∈ fields.map Prod.snd, e.readsTable = false) (hs : scope.Plain) :
    Builds p (Meaning.bindFields scope (fieldMeanings env fields)) fun _ bs =>
      Laid root (b 0) (b fields.length) idle (Binding.fieldContents bs) ∧
        Binding.fieldGroups bs = 0 := by
  induction fields generalizing b p with
  | nil => exact .pure ⟨.zero le_rfl, rfl⟩
  | cons f fields ih =>
    obtain ⟨name, e⟩ := f
    have he := ha (k := 0) rfl
    refine (he.asBinding hs).bind fun q first _ hfirst => ?_
    refine (ih (b := fun k => b (k + 1)) (fun h => ha (k := _ + 1) h)
      fun h e he => hidle h e (List.mem_cons_of_mem _ he)).bind fun r bs _ hothers => .pure ⟨?_, ?_⟩
    · exact (hfirst.1.imp fun h => hidle h e List.mem_cons_self).add hothers.1 le_rfl
    · rw [Binding.fieldGroups, hfirst.2, hothers.2, add_zero]

end

theorem Expr.LaidOut.within (ha : Expr.LaidOut env root start stop bound node parts)
    {queries : Multiset Select} {k : Nat} {idle : Prop}
    (h : Laid root (bound 0) (bound k) idle queries) : Laid root start stop idle queries := by
  have := ha.first
  exact h.widen (by omega) (ha.le k)

theorem Expr.LaidOut.part (ha : Expr.LaidOut env root start stop bound node parts) {k : Nat}
    (he : parts[k]? = some e) (hs : scope.Plain) :
    Builds p ((e.meaning env).asScalar scope) fun _ s =>
      Laid root (bound k) (bound (k + 1)) (node.readsTable = false) s.expr.contents :=
  ((ha.lies he).asScalar hs).imp fun _ _ _ h =>
    h.imp fun hidle => ha.idle hidle e (List.mem_of_getElem? he)

theorem scalarOfBinary_lie {left right : Expr} {op : BinaryOp}
    (ha : Expr.LaidOut env root start stop bound node [left, right]) (hs : scope.Plain) :
    Builds p (scalarOfBinary op (left.meaning env) (right.meaning env) scope) fun _ s =>
      Laid root start stop (node.readsTable = false) s.expr.contents := by
  have hfirst := ha.first
  rw [scalarOfBinary]
  cases htest : nullTest? op (left.meaning env) (right.meaning env) with
  | some test =>
    obtain ⟨m, negated⟩ := test
    have operand : Builds p (m.asScalar scope) fun _ s =>
        Laid root start stop (node.readsTable = false) s.expr.contents := by
      rcases nullTest?_operand htest with rfl | rfl
      · exact (ha.part (k := 0) rfl hs).imp fun _ _ _ h => ha.within h
      · have := ha.mono (Nat.zero_le 1)
        exact (ha.part (k := 1) rfl hs).imp fun _ _ _ h => h.widen (by omega) (ha.le _)
    exact operand.bind fun q s _ h => .pure h
  | none =>
    refine (ha.part (k := 0) rfl hs).bind fun q l _ hleft => ?_
    refine (ha.part (k := 1) rfl hs).bind fun r s _ hright => ?_
    have hboth := ha.within (hleft.add hright le_rfl)
    cases sqlBinary? op with
    | some sqlOp => exact .pure hboth
    | none =>
      refine .pure ?_
      simpa only [SqlExpr.contents, SqlExpr.coalesce, SqlExpr.nestedSelects, nestedOfList,
        List.append_nil, Multiset.coe_add] using hboth

theorem contents_searchPattern (name : String) (needle : SqlExpr) :
    ((searchPattern? name needle).getD needle).contents = needle.contents := by
  unfold searchPattern?
  split <;> simp [SqlExpr.contents, SqlExpr.nestedSelects]

theorem scalarOfFunction_lie {name : String}
    (ha : Expr.LaidOut env root start stop bound node parts) (hs : scope.Plain) :
    Builds p (scalarOfFunction env node name (meanings env parts) scope) fun _ s =>
      Laid root start stop (node.readsTable = false) s.expr.contents := by
  rw [scalarOfFunction]
  split
  · refine Builds.check fun m hm => ?_
    obtain ⟨text, htext, rfl⟩ := argument_meanings hm
    refine (ha.part htext hs).bind fun q t _ ht => ?_
    refine Builds.check fun m hm => ?_
    obtain ⟨needle, hneedle, rfl⟩ := argument_meanings hm
    refine (ha.part hneedle hs).bind fun r n _ hn => .pure ?_
    have hboth := ha.within (ht.add hn le_rfl)
    rwa [← contents_searchPattern (Text.lower name) n.expr] at hboth
  · refine (scalars_lie ha.lies ha.idle hs).bind fun q ss _ hscalars => ?_
    have called : ∀ callee, Laid root start stop (node.readsTable = false)
        (SqlExpr.function callee (ss.map Scalar.expr)).contents := fun _ => ha.within hscalars
    cases env.dialect.functionName (Text.lower name) with
    | some mapped => exact .pure (called mapped)
    | none =>
      cases env.dialect.capabilities.passthroughFunctions with
      | true => exact .pure (called name)
      | false => exact .throw _

theorem contents_lookUp {name : String} {b : Binding} (hs : scope.Plain)
    (h : lookUp scope name node = .ok b) : b.contents = 0 :=
  hs _ (mem_of_lookUp h)

end Values

namespace Meaning

theorem lies_ofScalar {scalar : Scope → Build Scalar}
    (h : ∀ {p scope}, Scope.Plain scope → Builds p (scalar scope) fun _ s =>
      Laid root start stop (node.readsTable = false) s.expr.contents) :
    (ofScalar node scalar).Lies root start stop node where
  asSequence _ _ := .unsupported _ _
  asBinding hs := (h hs).bind fun _ _ _ hscalar => .pure ⟨hscalar, rfl⟩
  apply _ _ := .unsupported _ _

theorem lies_ofBinding (reason : Unsupported) {binding : Scope → Build Binding}
    (h : ∀ {p scope}, Scope.Plain scope → Builds p (binding scope) fun _ b =>
      Laid root start stop (node.readsTable = false) b.contents ∧ b.groups = 0) :
    (ofBinding node reason binding).Lies root start stop node where
  asSequence _ _ := .unsupported _ _
  asBinding := h
  apply _ _ := .unsupported _ _

theorem lies_ofLambda {params : List String} {body : Expr}
    (ha : Expr.LaidOut env root start stop bound (.lambda i params body) [body]) :
    (ofLambda (.lambda i params body) params (body.meaning env)).Lies root start stop
      (.lambda i params body) where
  asSequence _ _ := .unsupported _ _
  asBinding _ := .unsupported _ _
  apply {scope p elements} hs helements := by
    refine builds_lambda fun inner hinner => ?_
    have hbody := ha.lies (k := 0) rfl
    refine (hbody.asBinding fun entry hentry => ?_).imp fun _ b _ hb => ⟨rfl, ?_⟩
    · exact (hinner entry hentry).elim (helements rfl _) (hs entry)
    · exact (ha.within hb.1).imp fun hidle => ha.idle hidle body List.mem_cons_self

theorem lies_ofEntity {name : String} (hlt : start < stop)
    (hplaced : ∀ s : Select, s.origin = some (.entity i name) → s.place root = start) :
    (ofEntity env (.entity i name) name).Lies root start stop (.entity i name) where
  asSequence {scope p} inRun hs := by
    rw [ofEntity]
    dsimp only
    cases env.catalog.entity? name with
    | none => exact .throw _
    | some entity =>
      refine Builds.freshLabel.bind fun q label _ _ => .pure ⟨?_, fun _ => ⟨rfl, hplaced _ rfl⟩⟩
      exact ⟨rfl, rfl, .zero hlt, fun _ => .inl rfl⟩
  asBinding _ := .unsupported _ _
  apply _ _ := .unsupported _ _

theorem lies_ofCall
    (ha : Expr.LaidOut env root start stop bound (.call i op parts) parts)
    (hcall : .call i op parts ∈ root.nodes)
    (hplaced : ∀ s : Select, s.origin = some (.call i op parts) → s.place root = start)
    (hmarker : env.marker = some i → op.pages = true) :
    (ofCall env (.call i op parts) op (meanings env parts)).Lies root start stop
      (.call i op parts) where
  asSequence inRun hs := sequenceOfCall_lie ha hplaced hmarker hs inRun
  asBinding hs := (scalarOfCall_lie ha hplaced hcall hs).bind fun _ _ _ h => .pure ⟨h, rfl⟩
  apply _ _ := .unsupported _ _

theorem lies_ofConstant (value : Value) (hle : start ≤ stop) :
    (ofConstant env node value).Lies root start stop node := by
  refine lies_ofScalar fun _ => ?_
  split
  · exact .pure (.zero hle)
  · cases env.slot? node.id with
    | none => exact .unsupported _ _
    | some slot => exact .pure (.zero hle)

end Meaning

namespace Expr

def isQuery : Expr → Bool
  | .entity .. | .call .. => true
  | _ => false

/-- No part that a statement is made from stands in two places. -/
def QueriesUnshared (e : Expr) : Prop := ((e.nodes.filter isQuery).map id).Nodup

instance (e : Expr) : Decidable e.QueriesUnshared :=
  inferInstanceAs (Decidable ((e.nodes.filter isQuery).map id).Nodup)

def StandsAt (root : Expr) (k : Nat) (e : Expr) : Prop :=
  ∃ before after, root.nodes = before ++ e.nodes ++ after ∧ before.length = k

theorem nodesOfList_append : ∀ as bs : List Expr,
    nodesOfList (as ++ bs) = nodesOfList as ++ nodesOfList bs
  | [], _ => rfl
  | e :: as, bs => by rw [List.cons_append, nodesOfList, nodesOfList, nodesOfList_append as bs,
      List.append_assoc]

theorem StandsAt.nodes_subset (h : root.StandsAt start e) : e.nodes ⊆ root.nodes := by
  obtain ⟨before, after, hnodes, -⟩ := h
  rw [hnodes]
  exact List.subset_append_of_subset_left _ (List.subset_append_right _ _)

theorem StandsAt.mem (h : root.StandsAt start e) : e ∈ root.nodes :=
  h.nodes_subset (nodes_eq e ▸ List.mem_cons_self)

def partAt (k : Nat) (e : Expr) (number : Nat) : Nat :=
  k + 1 + (nodesOfList (e.children.take number)).length

theorem StandsAt.child (h : root.StandsAt start e) {k : Nat} {c : Expr}
    (hc : e.children[k]? = some c) : root.StandsAt (e.partAt start k) c ∧
      e.partAt start (k + 1) = e.partAt start k + c.nodes.length := by
  obtain ⟨before, after, hnodes, rfl⟩ := h
  have htake : e.children.take (k + 1) = e.children.take k ++ [c] := by
    rw [List.take_add_one, hc]
    rfl
  have hchildren : nodesOfList e.children = nodesOfList (e.children.take k) ++
      (c.nodes ++ nodesOfList (e.children.drop (k + 1))) := by
    conv_lhs => rw [← List.take_append_drop (k + 1) e.children, htake]
    simp only [nodesOfList_append, nodesOfList, List.append_nil, List.append_assoc]
  refine ⟨⟨before ++ e :: nodesOfList (e.children.take k),
    nodesOfList (e.children.drop (k + 1)) ++ after, ?_, ?_⟩, ?_⟩
  · rw [hnodes, nodes_eq e, hchildren]
    simp only [List.append_assoc, List.cons_append]
  · rw [partAt, List.length_append, List.length_cons]
    omega
  · rw [partAt, partAt, htake, nodesOfList_append, List.length_append, nodesOfList, nodesOfList,
      List.append_nil, ← Nat.add_assoc]

theorem monotone_partAt (k : Nat) (e : Expr) : Monotone (e.partAt k) := by
  refine monotone_nat_of_le_succ fun number => ?_
  rw [partAt, partAt, List.take_add_one, nodesOfList_append, List.length_append]
  omega

theorem partAt_le (k : Nat) (e : Expr) (number : Nat) : e.partAt k number ≤ k + e.nodes.length := by
  have hall : nodesOfList e.children = nodesOfList (e.children.take number) ++
      nodesOfList (e.children.drop number) := by
    rw [← nodesOfList_append, List.take_append_drop]
  rw [partAt, nodes_eq e, List.length_cons, hall, List.length_append]
  omega

theorem readsTable_child {c : Expr} (hc : c ∈ e.children) (h : e.readsTable = false) :
    c.readsTable = false := by
  refine Bool.eq_false_iff.2 fun hreads => ?_
  obtain ⟨n, hn, hentity⟩ := List.any_eq_true.1 hreads
  refine List.any_eq_false.1 h n ?_ hentity
  obtain ⟨before, after, hchildren⟩ := List.append_of_mem hc
  rw [nodes_eq, hchildren, nodesOfList_append, nodesOfList]
  simp [hn]

/-- What is asked of a query for its nested statements to be at the places of their calls. -/
structure Orderly (env : Surroundings) (root : Expr) : Prop where
  identified : root.Identified
  unshared : root.QueriesUnshared
  columns : root.ReadsColumns
  marker : ∀ i op args, .call i op args ∈ root.nodes → env.marker = some i → op.pages = true

theorem Orderly.placed (h : Orderly env root) (he : root.StandsAt start e) (hquery : e.isQuery = true)
    {s : Select} (hs : s.origin = some e) : s.place root = start := by
  have hmem := he.mem
  obtain ⟨before, after, hnodes, rfl⟩ := he
  have hbefore : e.id ∉ before.map id := by
    intro hid
    obtain ⟨n, hn, heq⟩ := List.mem_map.1 hid
    have hn' : n ∈ root.nodes := hnodes ▸ List.mem_append_left _ (List.mem_append_left _ hn)
    obtain rfl := h.identified n hn' e hmem heq
    have honce := h.unshared
    rw [QueriesUnshared, hnodes, nodes_eq n] at honce
    simp only [List.cons_append, List.append_assoc, List.filter_append, List.map_append,
      List.filter_cons_of_pos hquery, List.map_cons] at honce
    exact (List.nodup_append.1 honce).2.2 _ (List.mem_map_of_mem (List.mem_filter.2 ⟨hn, hquery⟩)) _
      List.mem_cons_self rfl
  rw [Select.place, hs]
  dsimp only
  rw [hnodes, nodes_eq e, List.append_assoc, List.map_append,
    List.idxOf_append_of_notMem hbefore, List.length_map, List.cons_append, List.map_cons,
    List.idxOf_cons_self, add_zero]

theorem Orderly.laidOut (h : Orderly env root) (he : root.StandsAt start e)
    (hlies : ∀ c ∈ e.children, ∀ k, root.StandsAt k c →
      (c.meaning env).Lies root k (k + c.nodes.length) c) :
    LaidOut env root start (start + e.nodes.length) (e.partAt start) e e.children where
  first := rfl
  mono := monotone_partAt start e
  le := partAt_le start e
  lies hc := by
    obtain ⟨hstands, hnext⟩ := he.child hc
    rw [hnext]
    exact hlies _ (List.mem_of_getElem? hc) _ hstands
  idle hidle c hc := readsTable_child hc hidle
  plain c hc hlambda := h.columns e he.mem (List.any_eq_true.2 ⟨c, hc, hlambda⟩)

end Expr

section Meanings

open Meaning

mutual

theorem meaning_lies (h : Expr.Orderly env root) : ∀ (e : Expr) (k : Nat), root.StandsAt k e →
    (e.meaning env).Lies root k (k + e.nodes.length) e
  | .entity i name, k, he => lies_ofEntity (Nat.lt_succ_self k) fun s => h.placed he rfl
  | .call i op args, k, he => by
    have ha := h.laidOut he (meanings_lie h args)
    exact lies_ofCall ha he.mem (fun s => h.placed he rfl) (h.marker i op args he.mem)
  | .lambda i params body, k, he => lies_ofLambda (h.laidOut he
      (List.forall_mem_singleton.2 (meaning_lies h body)))
  | .param i name, k, he => lies_ofBinding _ fun hs => .lift fun b hb => by
      have hnone := contents_lookUp hs hb
      exact ⟨hnone ▸ .zero (Nat.le_add_right _ _), Binding.groups_eq_zero hnone⟩
  | .member i target name, k, he => by
    have ha := h.laidOut he (List.forall_mem_singleton.2 (meaning_lies h target))
    refine lies_ofBinding _ fun hs => ((ha.lies (k := 0) rfl).asBinding hs).bind fun _ b _ hb =>
      .lift fun found hfound => ?_
    obtain ⟨hcontents, hgroups⟩ := Binding.contents_member hfound
    refine ⟨?_, Multiset.le_zero.1 (hgroups.trans_eq hb.2)⟩
    exact (ha.within (hb.1.of_le hcontents)).imp fun hidle => ha.idle hidle _ List.mem_cons_self
  | .const _ value, k, _ => lies_ofConstant value (Nat.le_add_right _ _)
  | .segment .., k, _ => lies_ofBinding _ fun _ => .unsupported _ _
  | .binary _ op left right, k, he => by
    have ha := h.laidOut he (List.forall_mem_cons.2 ⟨meaning_lies h left,
      List.forall_mem_singleton.2 (meaning_lies h right)⟩)
    exact lies_ofScalar fun hs => scalarOfBinary_lie ha hs
  | .unary _ op operand, k, he => by
    have ha := h.laidOut he (List.forall_mem_singleton.2 (meaning_lies h operand))
    exact lies_ofScalar fun hs => (ha.part (k := 0) rfl hs).bind fun _ _ _ hscalar =>
      .pure (ha.within hscalar)
  | .function _ name args, k, he =>
    lies_ofScalar fun hs => scalarOfFunction_lie (h.laidOut he (meanings_lie h args)) hs
  | .object _ fields, k, he => by
    have ha := h.laidOut he (fieldMeanings_lie h fields)
    refine lies_ofBinding _ fun hs => (bindFields_lie ha.lies ha.idle hs).bind fun _ _ _ hfields =>
      .pure ⟨?_, hfields.2⟩
    exact ha.within hfields.1
  | .conditional _ test ifTrue ifFalse, k, he => by
    have ha := h.laidOut he (List.forall_mem_cons.2 ⟨meaning_lies h test, List.forall_mem_cons.2
      ⟨meaning_lies h ifTrue, List.forall_mem_singleton.2 (meaning_lies h ifFalse)⟩⟩)
    refine lies_ofScalar fun hs => ?_
    refine (ha.part (k := 0) rfl hs).bind fun p₁ t _ ht => ?_
    refine (ha.part (k := 1) rfl hs).bind fun p₂ a _ htrue => ?_
    refine (ha.part (k := 2) rfl hs).bind fun p₃ b _ hfalse => .pure ?_
    simpa only [SqlExpr.contents, SqlExpr.nestedSelects, nestedOfArms, nestedOfOption,
      List.append_nil, Multiset.coe_add] using ha.within ((ht.add htrue le_rfl).add hfalse le_rfl)

theorem meanings_lie (h : Expr.Orderly env root) : ∀ es : List Expr, ∀ e ∈ es, ∀ k, root.StandsAt k e →
    (e.meaning env).Lies root k (k + e.nodes.length) e
  | [] => nofun
  | e :: es => List.forall_mem_cons.2 ⟨meaning_lies h e, meanings_lie h es⟩

theorem fieldMeanings_lie (h : Expr.Orderly env root) : ∀ fields : List (String × Expr), ∀ e ∈ fields.map Prod.snd,
    ∀ k, root.StandsAt k e → (e.meaning env).Lies root k (k + e.nodes.length) e
  | [] => nofun
  | (_, e) :: fields => List.forall_mem_cons.2 ⟨meaning_lies h e, fieldMeanings_lie h fields⟩

end

end Meanings

theorem Select.contents_ofItem (e : SqlExpr) (origin : Expr) :
    (Select.ofItem e origin).contents = e.contents := by
  simp [ofItem, empty, contents, nested, nestedOfSource, nestedOfJoins, nestedOfOption,
    nestedOfItems, nestedOfList, nestedOfKeys, SqlExpr.contents]

theorem Terminal.contents_atRoot (t : Terminal) (node : Expr) :
    (t.atRoot env node).1.contents ≤ t.contents := by
  cases t with
  | single select row nullable unique => exact Multiset.le_cons_self _ _
  | exist select negated =>
    show (existence env select negated node).contents ≤ select ::ₘ select.contents
    rw [existence, Select.contents_ofItem]
    split
    · exact le_rfl
    · simp [SqlExpr.contents, SqlExpr.nestedSelects, nestedOfArms, nestedOfOption, Select.contents]
  | scalar select nullable => exact Multiset.le_cons_self _ _
  | isIn value select =>
    show (Select.ofItem (.coalesce [.isIn value select false, .literal (.bool false)]) node).contents ≤
      value.contents + select ::ₘ select.contents
    rw [Select.contents_ofItem]
    simp [SqlExpr.contents, SqlExpr.coalesce, SqlExpr.nestedSelects, nestedOfList, Select.contents]

theorem atRoot_lie (h : Expr.Orderly env e) : Builds ⟨0, false⟩ (atRoot env e) fun _ found =>
    Laid e 0 e.nodes.length False found.1.contents := by
  have hroot : e.StandsAt 0 e := ⟨[], [], by simp, rfl⟩
  have hlast : 0 + e.nodes.length ≤ e.nodes.length := (Nat.zero_add _).le
  have hs : Scope.Plain [] := nofun
  have sequence : Builds ⟨0, false⟩ (sequenceAtRoot env e) fun _ found =>
      Laid e 0 e.nodes.length False found.1.contents := by
    refine ((meaning_lies h e 0 hroot).asSequence false hs).bind fun p rows _ hrows => ?_
    refine Builds.check fun s hproject => .pure ?_
    rw [Rows.contents_project hproject hrows.1.items]
    exact hrows.1.laid.widen (Nat.zero_le _) hlast
  cases e with
  | call i op args =>
    rw [atRoot]
    split
    case isTrue hop =>
      have ha := h.laidOut hroot (meanings_lie h args)
      have hplaced : ∀ s : Select, s.origin = some (.call i op args) →
          s.place (.call i op args) = 0 := fun s => h.placed hroot rfl
      refine (terminalOfCall_lie ha hplaced hroot.mem hop hs).bind fun p t _ ht => .pure ?_
      exact ((ht.imp False.elim).of_le (t.contents_atRoot _)).widen le_rfl hlast
    case isFalse => exact sequence
  | _ => exact sequence

theorem Form.laid_ofExpr {catalog : Catalog} {dialect : Dialect} {f : Form} (hid : e.Identified)
    (hunshared : e.QueriesUnshared) (hcolumns : e.ReadsColumns)
    (h : Form.ofExpr catalog dialect e = .ok f) : Laid e 0 e.nodes.length False f.select.contents := by
  obtain ⟨progress, hrun, -⟩ := Form.ofExpr_ok h
  have hordered : Expr.Orderly (.ofExpr catalog dialect e) e :=
    ⟨hid, hunshared, hcolumns, fun i op args hcall hmarker => Expr.pages_of_marker hid hcall hmarker⟩
  exact (atRoot_lie hordered _ _ hrun).2

namespace Provider

open Setting

theorem renderAll_ok {render : Select → Except DialectError RenderedCommand} {queries : List Select}
    {commands : List RenderedCommand} : (renderAll render queries).1 = .ok commands ↔
      List.Forall₂ (fun s command => render s = .ok command) queries commands := by
  induction queries generalizing commands with
  | nil =>
    rw [List.forall₂_nil_left_iff, renderAll]
    exact ⟨fun h => (Except.ok.inj h).symm, fun h => congrArg Except.ok h.symm⟩
  | cons s rest ih =>
    rw [List.forall₂_cons_left_iff, renderAll]
    cases hs : render s with
    | error e => simp
    | ok command =>
      cases hrest : (renderAll render rest).1 with
      | error e =>
        rw [hrest] at ih
        simp [hrest, ← ih]
      | ok more =>
        rw [hrest] at ih
        simp [hrest, ← ih, eq_comm]

theorem renderNested_ok {render : Select → Except DialectError RenderedCommand} {select : Select}
    {root : Expr} {c : NestedCommands} : (renderNested render select root).1 = .ok c ↔
      List.Forall₂ (fun s command => render s = .ok command) (select.withNested root)
        (c.outer :: c.nested) := by
  rw [renderNested, Select.withNested, List.forall₂_cons, ← renderAll_ok]
  cases hs : render select with
  | error e => simp
  | ok outer =>
    obtain ⟨outer', nested'⟩ := c
    cases hnested : (renderAll render (select.nestedIn root)).1 with
    | error e => simp [hnested]
    | ok nested => simp [hnested]

theorem commands_ok {p : Provider} {e : Expr} {options : Option RenderOptions} {c : NestedCommands} :
    (p.commands e options).1 = .ok c ↔
      ∃ f, Form.ofExpr p.setting.catalog p.setting.dialect e.core = .ok f ∧
        List.Forall₂ (fun s command => p.setting.dialect.render (options.getD p.setting.options)
          (ownArguments e.core f) s = .ok command) (f.select.withNested e.core)
          (c.outer :: c.nested) := by
  rw [commands]
  cases hf : Form.ofExpr p.setting.catalog p.setting.dialect e.core with
  | error err => simp
  | ok f =>
    simp only [Except.ok.injEq, exists_eq_left', ← renderNested_ok]
    cases (renderNested (p.setting.dialect.render (options.getD p.setting.options)
      (ownArguments e.core f)) f.select e.core).1 <;> simp

/-- The commands of a query are those of its statement and then of the nested ones, sorted by the
places of the calls that they are of. As long as lambdas read columns alone no two have the same
place, and each has those nested in it right behind it. -/
theorem commands_listed {p : Provider} {e : Expr} {options : Option RenderOptions}
    {c : NestedCommands} (h : (p.commands e options).1 = .ok c) :
    ∃ f, Form.ofExpr p.setting.catalog p.setting.dialect e.core = .ok f ∧
      List.Forall₂ (fun s command => p.setting.dialect.render (options.getD p.setting.options)
        (ownArguments e.core f) s = .ok command) (f.select.withNested e.core) (c.outer :: c.nested) ∧
      (f.select.nestedIn e.core).Perm f.select.nested ∧
      (f.select.nestedIn e.core).Pairwise (fun a b => a.place e.core ≤ b.place e.core) ∧
      (e.core.Identified → e.core.QueriesUnshared → e.core.ReadsColumns →
        (∀ s ∈ f.select.nested, s.IsOf e.core ∧ ∀ n ∈ s.nested, s.place e.core < n.place e.core) ∧
        (f.select.nestedIn e.core).Pairwise (fun a b => a.place e.core < b.place e.core) ∧
        ∀ before s after, f.select.nestedIn e.core = before ++ s :: after →
          s.nestedIn e.core <+: after) := by
  obtain ⟨f, hf, hcommands⟩ := commands_ok.1 h
  refine ⟨f, hf, hcommands, f.select.nestedIn_perm _, f.select.nestedIn_sorted _, ?_⟩
  intro hid hunshared hcolumns
  have hlaid := Form.laid_ofExpr hid hunshared hcolumns hf
  refine ⟨fun s hs => ⟨hlaid.origin s hs, ?_⟩, Select.nestedIn_strict hlaid.once,
    fun before s after hlist => Select.nestedIn_prefix hlaid hlist⟩
  obtain ⟨_, -, -, hbehind, -⟩ := hlaid.around s hs
  exact fun n hn => (hbehind n hn).1

/-- `Customer.Where(c => Customer.Where(d => Customer.Any()).Any()).Select(c => new { n = Customer.Count() })`. -/
def withCount : Expr :=
  .call 0 .project
    [.call 1 .filter
      [.entity 2 "Customer",
        .lambda 3 ["c"] (.call 4 .any
          [.call 5 .filter
            [.entity 6 "Customer", .lambda 7 ["d"] (.call 8 .any [.entity 9 "Customer"])]])],
      .lambda 10 ["c"] (.object 11 [("n", .call 12 .count [.entity 13 "Customer"])])]

theorem commands_listed_withCount : ∃ c f,
    ((ofSetting customers).commands withCount none).1 = .ok c ∧
      Form.ofExpr customers.catalog customers.dialect withCount = .ok f ∧
      f.select.nested.length = 3 ∧
      ∀ before s after, f.select.nestedIn withCount = before ++ s :: after →
        s.nestedIn withCount <+: after := by
  obtain ⟨f, first, second, third, hf, hnested, hsorted, hfree⟩ : ∃ f first second third,
      Form.ofExpr customers.catalog customers.dialect withCount = .ok f ∧
        f.select.nested = [first, second, third] ∧
        f.select.nested.Pairwise (fun a b => a.place withCount < b.place withCount) ∧
        f.select.pieces.filterMap Piece.source? = [] :=
    ⟨_, _, _, _, rfl, rfl, by decide, rfl⟩
  have rendered : ∀ s ∈ f.select.withNested withCount, ∃ command,
      customers.dialect.render customers.options (ownArguments withCount f) s = .ok command := by
    intro s hs
    refine Postgres.render_ok _ fun source hsource => ?_
    have hmem := Piece.mem_sources.2 (f.select.withNested_among withCount s hs hsource)
    rw [hfree] at hmem
    cases hmem
  have hlist : f.select.withNested withCount = [f.select, first, second, third] := by
    rw [Select.withNested, Select.nestedIn_eq (.refl _) hsorted, hnested]
  simp only [hlist, List.forall_mem_cons] at rendered
  obtain ⟨⟨c₀, h₀⟩, ⟨c₁, h₁⟩, ⟨c₂, h₂⟩, ⟨c₃, h₃⟩, -⟩ := rendered
  have hc : ((ofSetting customers).commands withCount none).1 = .ok ⟨c₀, [c₁, c₂, c₃]⟩ :=
    commands_ok.2 ⟨f, hf, hlist ▸ .cons h₀ (.cons h₁ (.cons h₂ (.cons h₃ .nil)))⟩
  obtain ⟨f', hf', -, -, -, hlisted⟩ := commands_listed hc
  cases hf.symm.trans hf'
  refine ⟨_, f, hc, hf, by rw [hnested]; rfl, (hlisted ?_ (by decide) (by decide)).2.2⟩
  exact Expr.Unshared.identified (by decide)

/-- `Customer.Select(c => new { age = c.age, n = Customer.Count() })
  .Where(x => Customer.Where(d => d.age > x.n).Any()).Select(x => x.age)`. -/
def belowCount : Expr :=
  .call 0 .project
    [.call 1 .filter
      [.call 2 .project
        [.entity 3 "Customer",
          .lambda 4 ["c"] (.object 5 [("age", .member 6 (.param 7 "c") "age"),
            ("n", .call 8 .count [.entity 9 "Customer"])])],
        .lambda 10 ["x"] (.call 11 .any
          [.call 12 .filter
            [.entity 13 "Customer",
              .lambda 14 ["d"] (.binary 15 .greaterThan (.member 16 (.param 17 "d") "age")
                (.member 18 (.param 19 "x") "n"))]])],
      .lambda 20 ["x"] (.member 21 (.param 22 "x") "age")]

/-- The count is computed in the condition of the other nested statement and listed before it. -/
theorem listed_before_belowCount : ∃ f outer inner,
    Form.ofExpr customers.catalog customers.dialect belowCount = .ok f ∧
      f.select.nestedIn belowCount = [inner, outer] ∧ inner ∈ outer.nested := by
  obtain ⟨f, outer, inner, hf, hnested, hinner, hplaces⟩ : ∃ f outer inner,
      Form.ofExpr customers.catalog customers.dialect belowCount = .ok f ∧
        f.select.nested = [outer, inner] ∧ outer.nested = [inner] ∧
        inner.place belowCount < outer.place belowCount := ⟨_, _, _, rfl, rfl, rfl, by decide⟩
  refine ⟨f, outer, inner, hf, Select.nestedIn_eq (hnested ▸ .swap _ _ _) ?_, ?_⟩
  · exact List.pairwise_cons.2 ⟨List.forall_mem_singleton.2 hplaces, List.pairwise_singleton _ _⟩
  · rw [hinner]
    exact List.mem_cons_self

end Provider

end SequenceQuery
