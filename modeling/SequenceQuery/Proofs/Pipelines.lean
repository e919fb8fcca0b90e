import SequenceQuery.Form.Basic
import SequenceQuery.Proofs.Layout
import SequenceQuery.Proofs.Operators

namespace SequenceQuery

namespace Expr

/-- At a slot are the values of a node that has it. -/
theorem values_of_slot {ns : List Expr} (before : List Value) {i : NodeId} {slot : Nat}
    (h : (i, slot) ∈ slotsFrom before.length ns) : ∃ n ∈ ns, n.id = i ∧
      ∀ (j : Nat) (v : Value), n.ownValues[j]? = some v →
        (before ++ ns.flatMap ownValues)[slot + j]? = some v := by
  induction ns generalizing before with
  | nil => cases h
  | cons e ns ih =>
    rw [slotsFrom] at h
    simp only [List.flatMap_cons, ← List.append_assoc]
    cases hvalues : e.ownValues with
    | nil =>
      rw [hvalues] at h
      obtain ⟨n, hn, hid, hheld⟩ := ih before h
      simp only [List.append_nil]
      exact ⟨n, List.mem_cons_of_mem _ hn, hid, hheld⟩
    | cons first values =>
      rw [hvalues] at h
      rcases List.mem_cons.1 h with h | h
      · obtain ⟨rfl, rfl⟩ := Prod.mk.inj h
        refine ⟨e, List.mem_cons_self, rfl, fun j v hv => ?_⟩
        rw [List.append_assoc, List.getElem?_append_right (Nat.le_add_right _ _),
          Nat.add_sub_cancel_left, ← hvalues,
          List.getElem?_append_left (List.getElem?_eq_some_iff.1 hv).1]
        exact hv
      · have hlength : before.length + (first :: values).length =
            (before ++ first :: values).length := List.length_append.symm
        rw [hlength] at h
        obtain ⟨n, hn, hid, hheld⟩ := ih _ h
        exact ⟨n, List.mem_cons_of_mem _ hn, hid, hheld⟩

end Expr

/-- Where an identity is that of one node, the slot of a node holds its values. -/
theorem supplies_of_identified (catalog : Catalog) (dialect : Dialect) {e : Expr}
    (h : ∀ m ∈ e.nodes, ∀ n ∈ e.nodes, m.id = n.id → m = n) (segment : Option Segment) :
    ∀ n ∈ e.nodes,
      (Surroundings.ofExpr catalog dialect e).Supplies ⟨e.constants, segment⟩ n := by
  intro n hn slot hslot i v hv
  obtain ⟨⟨id, slot⟩, hfind, rfl⟩ := Option.map_eq_some_iff.1 hslot
  have hfound := List.find?_some hfind
  obtain rfl := eq_of_beq hfound
  obtain ⟨m, hm, hid, hheld⟩ :=
    Expr.values_of_slot [] (List.mem_reverse.1 (List.mem_of_find?_eq_some hfind))
  rw [h m hm n hn hid] at hheld
  exact hheld i v hv

theorem supplies_ofExpr (catalog : Catalog) (dialect : Dialect) {e : Expr} (h : e.Unshared)
    (segment : Option Segment) : ∀ n ∈ e.nodes,
      (Surroundings.ofExpr catalog dialect e).Supplies ⟨e.constants, segment⟩ n :=
  supplies_of_identified catalog dialect
    (fun _ hm _ hn hid => List.inj_on_of_nodup_map h hm hn hid) segment

theorem Expr.marker?_of_operatorFree {e : Expr} (h : e.operatorFree) : e.marker? = none := by
  rw [marker?_eq_findSome?, List.findSome?_eq_none_iff]
  intro n hn
  have hcall : n.isCall = false := by simpa using List.all_eq_true.1 h n hn
  cases n with
  | call => cases hcall
  | _ => rfl

section

variable {engine : Engine} {db : Database} {arguments : Arguments} {env : Surroundings}
  {entity : Entity} {e source : Expr} {rest : List Expr} {t : ElementType} {xs : List Element}
  {u v : Prop} {id : NodeId} {op : Operator}

theorem call_nodes {P : Expr → Prop} (h : ∀ n ∈ (Expr.call id op (source :: rest)).nodes, P n) :
    P (.call id op (source :: rest)) ∧ (∀ n ∈ source.nodes, P n) ∧
      ∀ n ∈ Expr.nodesOfList rest, P n := by
  obtain ⟨hself, hrest⟩ := List.forall_mem_cons.1 h
  exact ⟨hself, List.forall_mem_append.1 hrest⟩

theorem lambda_nodes {P : Expr → Prop} {i : NodeId} {params : List String} {body : Expr}
    (h : ∀ n ∈ (Expr.call id op [source, .lambda i params body]).nodes, P n) :
    P (.call id op [source, .lambda i params body]) ∧ (∀ n ∈ source.nodes, P n) ∧
      ∀ n ∈ body.nodes, P n := by
  obtain ⟨hself, hsource, hlambda⟩ := call_nodes h
  rw [Expr.nodesOfList, Expr.nodesOfList, List.append_nil] at hlambda
  exact ⟨hself, hsource, (List.forall_mem_cons.1 hlambda).2⟩

theorem sequenceOfCall_yields {P Q : Rows → Prop} {args : List Meaning} {node : Expr}
    (hnode : env.marker ≠ some node.id) (h : Yields u (callRows env node op args []) P v)
    (hQ : ∀ rows, P rows → Q (rows.withOrigin node)) :
    Yields u (sequenceOfCall env node op args false []) Q v := by
  rw [sequenceOfCall, if_neg (by simp), if_neg hnode]
  exact h.bind fun rows hrows => .pure (hQ rows hrows)

theorem sequence_reads {args : List Meaning} {node : Expr} (hnode : env.marker ≠ some node.id)
    (h : Yields u (callRows env node op args []) (Rows.Reads engine db arguments t xs) v) :
    Yields u (sequenceOfCall env node op args false []) (Rows.Reads engine db arguments t xs)
      v :=
  sequenceOfCall_yields hnode h fun _ hrows => hrows.withOrigin node

def Entity.rows (entity : Entity) (label : String) : Rows :=
  ⟨.ofTable (.table entity.schema entity.table label), .record label entity "" false⟩

theorem entity_yields {P : Rows → Prop} {name : String} (h : env.catalog.entity? name = some entity)
    (hP : ∀ label, P ((entity.rows label).withOrigin (.entity id name))) :
    Yields u (((Expr.entity id name).meaning env).asSequence false []) P u := by
  have hmeaning : ((Expr.entity id name).meaning env).asSequence false [] = (do
      let label ← freshLabel
      return (entity.rows label).withOrigin (.entity id name)) := by
    dsimp only [Expr.meaning, Meaning.ofEntity]
    rw [h]
    rfl
  rw [hmeaning]
  exact Yields.freshLabel.bind fun label _ => .pure (hP label)

theorem Entity.type_rows (entity : Entity) (label : String) :
    (entity.rows label).row.type = entity.type :=
  Entity.map_compose ..

theorem Entity.element_rows (entity : Entity) (label : String) (r : Record) :
    (entity.rows label).row.element engine db arguments [(label, r)] = entity.element r := by
  rw [rows, Binding.element, Binding.composite, Entity.map_compose, Entity.element]
  refine Entity.compose_congr fun p _ => ?_
  rw [Binding.cellIn_columnOf, String.empty_append]

theorem entity_reads {name : String} (h : env.catalog.entity? name = some entity)
    (hproperties : entity.properties ≠ []) :
    Yields u (((Expr.entity id name).meaning env).asSequence false [])
      (Rows.Reads engine db arguments entity.type
        ((Expr.entity id name).elements engine env.dialect.callee env.catalog db)) u := by
  rw [Expr.elements, h]
  refine entity_yields h fun label => Rows.Reads.withOrigin ?_ _
  refine ⟨⟨rfl, rfl, rfl, rfl, rfl, ?_⟩, entity.type_rows label, ?_⟩
  · rw [entity.type_rows label, Entity.type, Entity.leaves_compose]
    simpa using hproperties
  · have hreturned : ((db entity.schema entity.table).map fun r => [(label, r)]).filter
        (fun _ => true) = (db entity.schema entity.table).map fun r => [(label, r)] :=
      List.filter_eq_self.2 fun _ _ => rfl
    refine (congrArg (List.map _) hreturned).trans ?_
    rw [List.map_map]
    exact List.map_congr_left fun r _ => entity.element_rows label r

theorem Pipeline.reads_unmarked (h : Pipeline env.catalog entity e t)
    (hproperties : entity.properties ≠ [])
    (hshort : (db entity.schema entity.table).length < Segment.countBound)
    (hsupplied : ∀ n ∈ e.nodes, env.Supplies arguments n)
    (hmarker : ∀ n ∈ e.nodes, env.marker ≠ some n.id) :
    Yields u ((e.meaning env).asSequence false []) (Rows.Reads engine db arguments t
      (e.elements engine env.dialect.callee env.catalog db)) u := by
  induction h with
  | entity h => exact entity_reads h hproperties
  | filter h hbody ih =>
    obtain ⟨-, hsource, hbodySupplied⟩ := lambda_nodes hsupplied
    obtain ⟨hnode, hbelow, -⟩ := call_nodes hmarker
    exact sequence_reads hnode
      (filter_reads (ih hsource hbelow) (readable_of_operatorFree hbody hbodySupplied))
  | project h hbody hcolumns ih =>
    obtain ⟨-, hsource, hbodySupplied⟩ := lambda_nodes hsupplied
    obtain ⟨hnode, hbelow, -⟩ := call_nodes hmarker
    exact sequence_reads hnode
      (project_reads (ih hsource hbelow) (readable_of_operatorFree hbody hbodySupplied) hcolumns)
  | distinct h ih =>
    obtain ⟨-, hsource, -⟩ := call_nodes hsupplied
    obtain ⟨hnode, hbelow, -⟩ := call_nodes hmarker
    exact sequence_reads hnode (distinct_reads (ih hsource hbelow))
  | skip h hn ih =>
    obtain ⟨-, hsource, hcount⟩ := call_nodes hsupplied
    obtain ⟨hnode, hbelow, -⟩ := call_nodes hmarker
    exact sequence_reads hnode (skip_reads (ih hsource hbelow) (hcount _ List.mem_cons_self))
  | take h hn ih =>
    obtain ⟨-, hsource, hcount⟩ := call_nodes hsupplied
    obtain ⟨hnode, hbelow, -⟩ := call_nodes hmarker
    exact sequence_reads hnode (take_reads (ih hsource hbelow) (hcount _ List.mem_cons_self))
  | segment h ih =>
    obtain ⟨-, hsource, hsegment⟩ := call_nodes hsupplied
    obtain ⟨hnode, hbelow, -⟩ := call_nodes hmarker
    have hlength := (h.length_elements_le engine env.dialect.callee db).trans_lt hshort
    exact sequence_reads hnode
      (segment_reads hlength (ih hsource hbelow) (hsegment _ List.mem_cons_self))

theorem Pipeline.asSequence_inRun (h : Pipeline env.catalog entity e t) :
    (e.meaning env).asSequence true [] = (e.pagingRun.2.meaning env).asSequence false [] := by
  induction h with
  | skip _ _ ih | take _ _ ih => exact ih
  | _ => rfl

theorem Pipeline.nodes_pagingRun {catalog : Catalog} (h : Pipeline catalog entity e t) :
    ∀ n ∈ e.pagingRun.2.nodes, n ∈ e.nodes := by
  induction h with
  | skip _ _ ih | take _ _ ih =>
    exact fun n hn => List.mem_cons_of_mem _ (List.mem_append_left _ (ih n hn))
  | _ => exact fun _ hn => hn

theorem id_ne_of_unshared (h : (Expr.call id op (source :: rest)).Unshared) :
    source.Unshared ∧ ∀ n ∈ source.nodes, id ≠ n.id := by
  obtain ⟨hid, hrest⟩ := List.nodup_cons.1 h
  rw [Expr.nodesOfList, List.map_append] at hid hrest
  refine ⟨(List.nodup_append.1 hrest).1, fun n hn heq => hid ?_⟩
  exact List.mem_append_left _ (List.mem_map.2 ⟨n, hn, heq.symm⟩)

theorem firstMarker?_lambda {body : Expr} (hbody : body.operatorFree) (i : NodeId)
    (params : List String) : Expr.firstMarker? [.lambda i params body] = none := by
  rw [Expr.firstMarker?, Expr.marker?, Expr.marker?_of_operatorFree hbody]
  rfl

structure Paged (env : Surroundings) (arguments : Arguments) (e : Expr) : Prop where
  marker : env.marker = e.marker?.map fun m => m.call.id
  segment : ∀ m, e.marker? = some m → arguments.segment = some m.segment

theorem Paged.below (h : Paged env arguments (.call id op (source :: rest)))
    (hself : (Expr.call id op (source :: rest)).asMarker? = none)
    (hrest : Expr.firstMarker? rest = none) (hid : ∀ n ∈ source.nodes, id ≠ n.id) :
    (Expr.call id op (source :: rest)).marker? = source.marker? ∧ Paged env arguments source ∧
      env.marker ≠ some id := by
  have hmarker : (Expr.call id op (source :: rest)).marker? = source.marker? := by
    rw [Expr.marker?, hself, Expr.firstMarker?, hrest, Option.none_or, Option.or_none]
  refine ⟨hmarker, ⟨hmarker ▸ h.marker, hmarker ▸ h.segment⟩, fun heq => ?_⟩
  rw [h.marker, hmarker, Expr.marker?_eq_findSome?] at heq
  obtain ⟨m, hm, hcall⟩ := Option.map_eq_some_iff.1 heq
  obtain ⟨n, hn, hnm⟩ := List.exists_of_findSome?_eq_some hm
  rw [Expr.call_of_asMarker? hnm] at hcall
  exact hid n hn hcall.symm

/-- At the paging marker, given the sequence below the run of paging steps. -/
theorem Pipeline.reads_marked {below : Expr} {m : Marker}
    (hm : (Expr.call id op (source :: rest)).asMarker? = some m)
    (hbelow : Pipeline env.catalog entity below t)
    (hsource : (source.meaning env).asSequence (decide (op ≠ .segment)) [] =
      (below.meaning env).asSequence false [])
    (hnodes : ∀ n ∈ below.nodes, n ∈ source.nodes)
    (helements : (Expr.call id op (source :: rest)).elements engine env.dialect.callee env.catalog
      db = m.segment.rows (below.elements engine env.dialect.callee env.catalog db))
    (hproperties : entity.properties ≠ [])
    (hshort : (db entity.schema entity.table).length < Segment.countBound)
    (hsupplied : ∀ n ∈ source.nodes, env.Supplies arguments n)
    (hid : ∀ n ∈ source.nodes, id ≠ n.id)
    (hpaged : Paged env arguments (.call id op (source :: rest))) :
    Yields u (((Expr.call id op (source :: rest)).meaning env).asSequence false [])
      (Rows.Reads engine db arguments t
        ((Expr.call id op (source :: rest)).elements engine env.dialect.callee env.catalog db))
      True := by
  have hmarker : (Expr.call id op (source :: rest)).marker? = some m := by
    rw [Expr.marker?, hm, Option.some_or]
  have hnode : env.marker = some (Expr.call id op (source :: rest)).id := by
    rw [hpaged.marker, hmarker, Option.map_some, Expr.call_of_asMarker? hm]
  have hlength := (hbelow.length_elements_le engine env.dialect.callee db).trans_lt hshort
  show Yields u (sequenceOfCall env (.call id op (source :: rest)) op
    (meanings env (source :: rest)) false []) _ _
  rw [sequenceOfCall, if_neg (by simp), if_pos hnode, helements]
  refine marker_reads hlength ?_ (hpaged.segment m hmarker)
  rw [hsource]
  refine hbelow.reads_unmarked hproperties hshort (fun n hn => hsupplied n (hnodes n hn)) ?_
  intro n hn
  rw [hnode]
  exact fun heq => hid n (hnodes n hn) (Option.some.inj heq)

variable (engine db) in
/-- A pipeline is read as its elements, and the segment of its paging marker is asked for. -/
theorem Pipeline.reads (h : Pipeline env.catalog entity e t) (hproperties : entity.properties ≠ [])
    (hshort : (db entity.schema entity.table).length < Segment.countBound)
    (hsupplied : ∀ n ∈ e.nodes, env.Supplies arguments n) (hunshared : e.Unshared)
    (hpaged : Paged env arguments e) :
    Yields False ((e.meaning env).asSequence false []) (Rows.Reads engine db arguments t
      (e.elements engine env.dialect.callee env.catalog db)) (e.marker?.isSome = true) := by
  have hsize : (db entity.schema entity.table).length < UInt64.size :=
    hshort.trans (by decide)
  induction h with
  | entity h => exact (entity_reads h hproperties).after nofun
  | filter h hbody ih =>
    obtain ⟨hsource, hid⟩ := id_ne_of_unshared hunshared
    obtain ⟨-, hsupplied, hbodySupplied⟩ := lambda_nodes hsupplied
    obtain ⟨hmarker, hbelow, hnode⟩ := hpaged.below rfl (firstMarker?_lambda hbody ..) hid
    rw [hmarker]
    exact sequence_reads hnode (filter_reads (ih hsupplied hsource hbelow)
      (readable_of_operatorFree hbody hbodySupplied))
  | project h hbody hcolumns ih =>
    obtain ⟨hsource, hid⟩ := id_ne_of_unshared hunshared
    obtain ⟨-, hsupplied, hbodySupplied⟩ := lambda_nodes hsupplied
    obtain ⟨hmarker, hbelow, hnode⟩ := hpaged.below rfl (firstMarker?_lambda hbody ..) hid
    rw [hmarker]
    exact sequence_reads hnode (project_reads (ih hsupplied hsource hbelow)
      (readable_of_operatorFree hbody hbodySupplied) hcolumns)
  | distinct h ih =>
    obtain ⟨hsource, hid⟩ := id_ne_of_unshared hunshared
    obtain ⟨-, hsupplied, -⟩ := call_nodes hsupplied
    obtain ⟨hmarker, hbelow, hnode⟩ := hpaged.below rfl rfl hid
    rw [hmarker]
    exact sequence_reads hnode (distinct_reads (ih hsupplied hsource hbelow))
  | @skip id i source n t h hn _ =>
    obtain ⟨-, hid⟩ := id_ne_of_unshared hunshared
    obtain ⟨-, hsupplied, -⟩ := call_nodes hsupplied
    have hpipeline : Pipeline env.catalog entity (.call id .skip [source, .const i (.int n)]) t :=
      h.skip hn
    obtain ⟨hbelow, -, helements⟩ := hpipeline.pagingRun engine env.dialect.callee db hsize
    exact (Pipeline.reads_marked rfl hbelow h.asSequence_inRun h.nodes_pagingRun helements
      hproperties hshort hsupplied hid hpaged).after fun _ => trivial
  | @take id i source n t h hn _ =>
    obtain ⟨-, hid⟩ := id_ne_of_unshared hunshared
    obtain ⟨-, hsupplied, -⟩ := call_nodes hsupplied
    have hpipeline : Pipeline env.catalog entity (.call id .take [source, .const i (.int n)]) t :=
      h.take hn
    obtain ⟨hbelow, -, helements⟩ := hpipeline.pagingRun engine env.dialect.callee db hsize
    exact (Pipeline.reads_marked rfl hbelow h.asSequence_inRun h.nodes_pagingRun helements
      hproperties hshort hsupplied hid hpaged).after fun _ => trivial
  | segment h _ =>
    obtain ⟨-, hid⟩ := id_ne_of_unshared hunshared
    obtain ⟨-, hsupplied, -⟩ := call_nodes hsupplied
    exact (Pipeline.reads_marked rfl h rfl (fun _ hn => hn) rfl hproperties hshort hsupplied hid
      hpaged).after fun _ => trivial

end

end SequenceQuery
