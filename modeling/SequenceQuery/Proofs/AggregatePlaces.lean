import SequenceQuery.Proofs.FormConstruction

namespace SequenceQuery

namespace SqlExpr

/-- Aggregates in the expression are those over groups of statements around a place: their columns
are seen there, and what is computed there is computed of groups. -/
def AggregatesAround (place : Place) (e : SqlExpr) : Prop :=
  ∀ name args distinct, e.Has (.aggregate name args distinct) →
    place.grouped = true ∧ (SqlExpr.aggregate name args distinct).Meets .seen place

def AggregatesOnce (place : Place) (e : SqlExpr) : Prop :=
  ∀ name args distinct, e.Has (.aggregate name args distinct) →
    ∀ arg ∈ args, arg.AggregatesAround place

variable {e part found : SqlExpr} {place place' : Place}

theorem Has.trans (h : e.Has part) (h' : part.Has found) : e.Has found := by
  induction h with
  | self => exact h'
  | part hpart _ ih => exact .part hpart (ih h')

theorem AggregatesAround.of_has (h : e.AggregatesAround place) (hpart : e.Has part) :
    part.AggregatesAround place :=
  fun name args distinct hhas => h name args distinct (hpart.trans hhas)

theorem AggregatesAround.once (h : e.AggregatesAround place) : e.AggregatesOnce place :=
  fun _ _ _ hhas arg harg => (h.of_has hhas).of_has (.part harg (.self arg))

theorem AggregatesAround.mono (h : e.AggregatesAround place) (hle : place ≤ place') :
    e.AggregatesAround place' := fun name args distinct hhas =>
  ⟨hle.2 (h name args distinct hhas).1,
    (h name args distinct hhas).2.mono Standard.isMonotone_seen hle⟩

theorem AggregatesOnce.mono (h : e.AggregatesOnce place) (hle : place ≤ place') :
    e.AggregatesOnce place' :=
  fun name args distinct hhas arg harg => (h name args distinct hhas arg harg).mono hle

/-- Where groups are at hand, every aggregate of what is seen is over a group. -/
theorem aggregatesAround_of_seen (h : e.Meets .seen place) (hgrouped : place.grouped = true) :
    e.AggregatesAround place :=
  fun _ _ _ hhas => ⟨hgrouped, h.of_has hhas⟩

theorem has_aggregate {name : String} {args : List SqlExpr} {distinct : Bool}
    (h : e.Has (.aggregate name args distinct)) :
    e = .aggregate name args distinct ∨ ∃ part ∈ e.parts, part.Has (.aggregate name args distinct) := by
  cases h with
  | self => exact .inl rfl
  | part hpart h => exact .inr ⟨_, hpart, h⟩

theorem aggregatesAround_of_isComposed (h : e.isComposed = true)
    (hparts : ∀ part ∈ e.parts, part.AggregatesAround place) : e.AggregatesAround place := by
  intro name args distinct hhas
  rcases has_aggregate hhas with rfl | ⟨part, hpart, hhas⟩
  · cases h
  · exact hparts part hpart name args distinct hhas

theorem aggregatesOnce_of_isComposed (h : e.isComposed = true)
    (hparts : ∀ part ∈ e.parts, part.AggregatesOnce place) : e.AggregatesOnce place := by
  intro name args distinct hhas
  rcases has_aggregate hhas with rfl | ⟨part, hpart, hhas⟩
  · cases h
  · exact hparts part hpart name args distinct hhas

theorem aggregatesAround_columnOf (label name : String) :
    (columnOf label name).AggregatesAround place := by
  intro name args distinct hhas
  rcases has_aggregate hhas with h | ⟨_, hpart, _⟩
  · cases h
  · cases hpart

theorem aggregatesAround_wildcard : SqlExpr.wildcard.AggregatesAround place := by
  intro name args distinct hhas
  rcases has_aggregate hhas with h | ⟨_, hpart, _⟩
  · cases h
  · cases hpart

theorem aggregatesAround_aggregateOf {name : String} {arg : SqlExpr}
    (hgrouped : place.grouped = true) (hseen : arg.Meets .seen place)
    (harg : arg.AggregatesAround place) : (aggregateOf name [arg]).AggregatesAround place := by
  intro _ _ _ hhas
  rcases has_aggregate hhas with h | ⟨part, hpart, hhas⟩
  · rw [← h]
    exact ⟨hgrouped, .aggregate (List.forall_mem_singleton.2 hseen)⟩
  · rw [List.mem_singleton.1 hpart] at hhas
    exact harg _ _ _ hhas

theorem aggregatesOnce_aggregateOf {name : String} {arg : SqlExpr}
    (harg : arg.AggregatesAround place) : (aggregateOf name [arg]).AggregatesOnce place := by
  intro _ _ _ hhas
  rcases has_aggregate hhas with h | ⟨part, hpart, hhas⟩
  · cases h
    exact List.forall_mem_singleton.2 harg
  · rw [List.mem_singleton.1 hpart] at hhas
    exact harg.once _ _ _ hhas

theorem aggregatesOnce_aggregateOver (op : Operator) {s : Scalar}
    (h : s.expr.AggregatesAround place) : (aggregateOver op s).expr.AggregatesOnce place := by
  cases op with
  | sum =>
    have hzero : (SqlExpr.int 0).AggregatesOnce place := aggregatesOnce_of_isComposed rfl nofun
    have hparts : ∀ part ∈ [aggregateOf "SUM" [s.expr], .int 0], part.AggregatesOnce place :=
      List.forall_mem_cons.2 ⟨aggregatesOnce_aggregateOf h, List.forall_mem_singleton.2 hzero⟩
    exact aggregatesOnce_of_isComposed rfl hparts
  | _ => exact aggregatesOnce_aggregateOf h

end SqlExpr

namespace Binding

variable {b : Binding} {place place' : Place}

def GivesAround (place : Place) : Nat → SqlExpr → Prop
  | 0, e => e.AggregatesAround place
  | _ + 1, e => e.AggregatesAround place ∧ e.Meets .seen place

def GivesReturned (place : Place) : Nat → SqlExpr → Prop
  | 0, e => e.AggregatesOnce place
  | 1, e => e.AggregatesAround place
  | _ + 2, e => e.AggregatesAround place ∧ e.Meets .seen place

/-- A binding of a statement around: what it gives is computed there, and its groups are groups
there. -/
def Around (place : Place) : Binding → Prop :=
  All (fun _ => place.grouped = true) (GivesAround place)

/-- A binding of what a statement at the place returns. It has groups of that statement too, whose
elements are computed row by row. -/
def Returned (place : Place) : Binding → Prop :=
  All (fun depth => depth = 0 ∨ place.grouped = true) (GivesReturned place)

theorem Around.mono (h : b.Around place) (hle : place ≤ place') : b.Around place' := by
  refine All.imp h (fun _ hg => hle.2 hg) fun n e he => ?_
  cases n with
  | zero => exact SqlExpr.AggregatesAround.mono he hle
  | succ n => exact ⟨he.1.mono hle, he.2.mono Standard.isMonotone_seen hle⟩

theorem Around.returned (h : b.Around place) : b.Returned place := by
  refine All.imp h (fun _ => .inr) fun n e he => ?_
  match n with
  | 0 => exact SqlExpr.AggregatesAround.once he
  | 1 => exact he.1
  | _ + 2 => exact he

theorem around_of_seen (h : b.Meets .seen place) (hgrouped : place.grouped = true) :
    b.Around place := by
  refine All.imp h (fun _ _ => hgrouped) fun n e he => ?_
  cases n with
  | zero => exact SqlExpr.aggregatesAround_of_seen he hgrouped
  | succ n =>
    have hseen := he.resolve_left fun hspares => hspares "" [] false
    exact ⟨SqlExpr.aggregatesAround_of_seen hseen hgrouped, hseen⟩

theorem around_record (label : String) (entity : Entity) (columnPrefix : String) (optional : Bool) :
    (record label entity columnPrefix optional).Around place :=
  .record (fun _ _ => SqlExpr.aggregatesAround_columnOf _ _) _

theorem around_readFrom {label path : String} {ls : List Leaf} (h : b.leaves? path = some ls) :
    (b.readFrom label path).Around place :=
  all_readFrom (fun _ => SqlExpr.aggregatesAround_columnOf _ _) h

theorem around_sides {ctx : List Binding} {outer inner innerRow : Binding} (houter : outer.Around place)
    (hinner : inner.Around place) (hrow : innerRow = inner ∨ innerRow = inner.asOptional)
    (hctx : ∀ b ∈ ctx, b.Around place) : ∀ b ∈ innerRow :: inner :: outer :: ctx, b.Around place := by
  refine List.forall_mem_cons.2 ⟨?_, List.forall_mem_cons.2
    ⟨hinner, List.forall_mem_cons.2 ⟨houter, hctx⟩⟩⟩
  rcases hrow with rfl | rfl
  · exact hinner
  · exact All.asOptional hinner

theorem Around.element {key element : Binding} (h : (Binding.group key element).Around place) :
    place.grouped = true ∧ element.Around place ∧ element.Meets .seen place := by
  cases h with
  | group hgrouped _ helement =>
    refine ⟨hgrouped, helement.imp (fun _ => id) fun n e he => ?_,
      helement.imp (fun _ _ => trivial) fun n e he => ?_⟩
    · cases n with
      | zero => exact he.1
      | succ n => exact he
    · cases n with
      | zero => exact he.2
      | succ n => exact .inr he.2

theorem Returned.element {key element : Binding} (h : (Binding.group key element).Returned place) :
    element.Around place := by
  cases h with
  | group _ _ helement =>
    refine helement.imp (fun n hg => hg.resolve_left (Nat.succ_ne_zero n)) fun n e he => ?_
    cases n with
    | zero => exact he
    | succ n => exact he

theorem Around.inGroups {key element : Binding} (hkey : key.Around place)
    (helement : element.Around place) : (Binding.group key element).Returned place := by
  refine .group (.inl rfl) hkey.returned (All.imp helement (fun _ => .inr) fun n e he => ?_)
  cases n with
  | zero => exact he
  | succ n => exact he

end Binding

structure Rows.AggregatesPlaced (place : Place) (rows : Rows) : Prop where
  rowExprs : ∀ e ∈ rows.select.rowExprs, e.AggregatesAround place
  resultExprs : ∀ e ∈ rows.select.resultExprs, e.AggregatesOnce place
  row : rows.row.Returned place
  ungrouped : rows.select.hasGroups = false → rows.row.Around place

variable {env : Surroundings} {ns : List Expr} {place o : Place} {ctx : List Binding} {x : Product}

/-- A GroupBy in the query has a key to group by. -/
def KeysGroup (env : Surroundings) (ns : List Expr) : Prop :=
  ∀ place ctx rows, Reached env ns place ctx → CallMakes env ns .groupBy ctx rows →
    rows.select.hasGroups = true

def Product.All (grouped : Nat → Prop) (value : Nat → SqlExpr → Prop) : Product → Prop
  | .value e => value 0 e
  | .binding b => b.All grouped value
  | _ => True

def Product.Around (place : Place) : Product → Prop :=
  All (fun _ => place.grouped = true) (Binding.GivesAround place)

def Product.Returned (place : Place) : Product → Prop :=
  All (fun depth => depth = 0 ∨ place.grouped = true) (Binding.GivesReturned place)

namespace Made

/-- What the bindings at hand give is given by all that is made of them, if what is composed of such
values is one too, and so are aggregates, each of what is said of the elements of a group alone. -/
theorem all {grouped : Nat → Prop} {value : Nat → SqlExpr → Prop} (hclosed : SelectorsClosed env ns)
    (hcompose : ∀ {e : SqlExpr}, e.isComposed = true → (∀ part ∈ e.parts, value 0 part) → value 0 e)
    (hcount : grouped 0 → value 0 .countRows)
    (haggregate : ∀ {place key element arg} (name : String), Reached env ns place [element] →
      (Binding.group key element).All grouped value → Made env ns place [element] (.value arg) →
        (element.All grouped value → value 0 arg) → value 0 (.aggregateOf name [arg]))
    (hmade : Made env ns place ctx x) (hreached : Reached env ns place ctx)
    (hctx : ∀ b ∈ ctx, b.All grouped value) : x.All grouped value := by
  induction hmade with
  | compose h _ _ ih _ => exact hcompose h fun part hpart => ih part hpart hreached hctx
  | leaf _ hls hl ih => exact (ih hreached hctx).leaves? hls _ hl
  | countRows _ ih =>
    cases ih hreached hctx with
    | group hgrouped _ _ => exact hcount hgrouped
  | aggregate hgroup _ hself name ih _ ihself =>
    have halone : Reached env ns _ [_] :=
      .fewer (.element hreached hgroup) (List.cons_subset.2 ⟨List.mem_cons_self, List.nil_subset _⟩)
    exact haggregate name halone (ih hreached hctx) (hself hclosed)
      fun helement => ihself hclosed halone (List.forall_mem_singleton.2 helement)
  | bound hb => exact hctx _ hb
  | scalar _ ih => exact .scalar (ih hreached hctx)
  | object _ ih => exact .object fun f hf => ih f hf hreached hctx
  | field _ hf ih =>
    cases ih hreached hctx with
    | object hfields => exact hfields _ hf
  | key _ ih =>
    cases ih hreached hctx with
    | group _ hkey _ => exact hkey
  | _ => trivial

theorem around (hclosed : SelectorsClosed env ns) (hmade : Made env ns place ctx x)
    (hreached : Reached env ns place ctx) (hctx : ∀ b ∈ ctx, b.Around o) : x.Around o := by
  refine hmade.all hclosed SqlExpr.aggregatesAround_of_isComposed ?_ ?_ hreached hctx
  · exact fun hgrouped =>
      SqlExpr.aggregatesAround_aggregateOf hgrouped .star SqlExpr.aggregatesAround_wildcard
  · intro place key element arg name halone hgroup hmade harg
    obtain ⟨hgrouped, helement, hseen⟩ := Binding.Around.element hgroup
    have hmeets := hmade.meets Standard.isUpheld_seen
      ⟨trivial, halone, List.forall_mem_singleton.2 hseen⟩
    exact SqlExpr.aggregatesAround_aggregateOf hgrouped hmeets (harg helement)

theorem returned (hclosed : SelectorsClosed env ns) (hmade : Made env ns place ctx x)
    (hreached : Reached env ns place ctx) (hctx : ∀ b ∈ ctx, b.Returned o) : x.Returned o := by
  refine hmade.all hclosed SqlExpr.aggregatesOnce_of_isComposed ?_ ?_ hreached hctx
  · exact fun _ => SqlExpr.aggregatesOnce_aggregateOf SqlExpr.aggregatesAround_wildcard
  · intro place key element arg name halone hgroup hmade _
    have helement := Binding.Returned.element hgroup
    exact SqlExpr.aggregatesOnce_aggregateOf
      (hmade.around hclosed halone (List.forall_mem_singleton.2 helement))

end Made

namespace Rows.AggregatesPlaced

variable {rows : Rows} {e : SqlExpr}

theorem withLimit (h : rows.AggregatesPlaced place) (he : e.AggregatesAround place) :
    (rows.withLimit e).AggregatesPlaced place := by
  obtain ⟨hjoins, hfilter, hgroups, -, hoffset⟩ := Select.forall_rowExprs.1 h.rowExprs
  refine { h with rowExprs := Select.forall_rowExprs.2 ⟨hjoins, hfilter, hgroups, ?_, hoffset⟩ }
  rintro _ ⟨⟩
  exact he

theorem withOffset (h : rows.AggregatesPlaced place) (he : e.AggregatesAround place) :
    (rows.withOffset e).AggregatesPlaced place := by
  obtain ⟨hjoins, hfilter, hgroups, hlimit, -⟩ := Select.forall_rowExprs.1 h.rowExprs
  refine { h with rowExprs := Select.forall_rowExprs.2 ⟨hjoins, hfilter, hgroups, hlimit, ?_⟩ }
  rintro _ ⟨⟩
  exact he

theorem unordered (h : rows.AggregatesPlaced place) :
    AggregatesPlaced place { rows with select := { rows.select with orderBy := [] } } := by
  obtain ⟨hselected, hhaving, -⟩ := Select.forall_resultExprs.1 h.resultExprs
  exact { h with resultExprs := Select.forall_resultExprs.2 ⟨hselected, hhaving, nofun⟩ }

theorem filterBy (h : rows.AggregatesPlaced place) (he : e.AggregatesAround place) :
    AggregatesPlaced place { rows with select := rows.select.filterBy e } := by
  obtain ⟨hjoins, hfilter, hkeys, hpaging⟩ := Select.forall_rowExprs.1 h.rowExprs
  refine { h with rowExprs := Select.forall_rowExprs.2 ⟨hjoins, ?_, hkeys, hpaging⟩ }
  rintro _ ⟨⟩
  exact Select.forall_conjoin (P := fun e => e.AggregatesAround _)
    (fun _ _ ha hb => SqlExpr.aggregatesAround_of_isComposed rfl
      (List.forall_mem_cons.2 ⟨ha, List.forall_mem_singleton.2 hb⟩)) hfilter he

theorem havingBy (h : rows.AggregatesPlaced place) (he : e.AggregatesOnce place) :
    AggregatesPlaced place { rows with select := rows.select.havingBy e } := by
  obtain ⟨hselected, hhaving, horder⟩ := Select.forall_resultExprs.1 h.resultExprs
  refine { h with resultExprs := Select.forall_resultExprs.2 ⟨hselected, ?_, horder⟩ }
  rintro _ ⟨⟩
  exact Select.forall_conjoin (P := fun e => e.AggregatesOnce _)
    (fun _ _ ha hb => SqlExpr.aggregatesOnce_of_isComposed rfl
      (List.forall_mem_cons.2 ⟨ha, List.forall_mem_singleton.2 hb⟩)) hhaving he

theorem orderedBy (h : rows.AggregatesPlaced place) {before keys : List SortKey}
    (hbefore : before ⊆ rows.select.orderBy)
    (hkeys : ∀ k ∈ keys, k.expr.AggregatesOnce place) :
    AggregatesPlaced place
      { rows with select := { rows.select with orderBy := before ++ keys } } := by
  obtain ⟨hselected, hhaving, horder⟩ := Select.forall_resultExprs.1 h.resultExprs
  refine { h with resultExprs := Select.forall_resultExprs.2 ⟨hselected, hhaving, ?_⟩ }
  exact List.forall_mem_append.2 ⟨fun k hk => horder k (hbefore hk), hkeys⟩

/-- Groups are returned, and they are around nothing that is not. -/
theorem groupedBy (h : rows.AggregatesPlaced place) {key element : Binding} {ls : List Leaf}
    (hkey : key.Around place) (helement : element.Around place) (hls : key.leaves? "" = some ls)
    (hgroups : ls.map (·.scalar.expr) ≠ []) :
    AggregatesPlaced place
      ⟨{ rows.select with groupBy := ls.map (·.scalar.expr) }, .group key element⟩ := by
  obtain ⟨hjoins, hfilter, -, hpaging⟩ := Select.forall_rowExprs.1 h.rowExprs
  refine ⟨Select.forall_rowExprs.2 ⟨hjoins, hfilter, ?_, hpaging⟩, h.resultExprs,
    Binding.Around.inGroups hkey helement, fun hempty => ?_⟩
  · exact List.forall_mem_map.2 (Binding.All.leaves? hkey hls)
  · exact absurd hempty (by simpa [Select.hasGroups] using hgroups)

theorem joined (h : rows.AggregatesPlaced place) {j : Join} {row : Binding}
    (hcondition : ∀ e ∈ j.condition, e.AggregatesAround place) (hrow : row.Around place) :
    AggregatesPlaced place
      ⟨{ rows.select with joins := rows.select.joins ++ [j] }, row⟩ := by
  obtain ⟨hjoins, hothers⟩ := Select.forall_rowExprs.1 h.rowExprs
  refine ⟨Select.forall_rowExprs.2 ⟨?_, hothers⟩, h.resultExprs, hrow.returned, fun _ => hrow⟩
  exact List.forall_mem_append.2 ⟨hjoins, List.forall_mem_singleton.2 hcondition⟩

theorem around {y : Product} (h : rows.AggregatesPlaced place) (hclosed : SelectorsClosed env ns)
    (hrows : Made env ns place ctx (.rows rows)) (hreached : Reached env ns place ctx)
    (hctx : ∀ b ∈ ctx, b.Around place) (hgroups : rows.select.hasGroups = false)
    (hmade : Made env ns (place.inside rows.select) (rows.row :: ctx) y) : y.Around place :=
  hmade.around hclosed (.inside hreached hrows) (List.forall_mem_cons.2 ⟨h.ungrouped hgroups, hctx⟩)

/-- What is computed of rows or groups. -/
theorem returned {y : Product} (h : rows.AggregatesPlaced place) (hclosed : SelectorsClosed env ns)
    (hrows : Made env ns place ctx (.rows rows)) (hreached : Reached env ns place ctx)
    (hctx : ∀ b ∈ ctx, b.Around place)
    (hmade : Made env ns (place.inside rows.select) (rows.row :: ctx) y) : y.Returned place :=
  hmade.returned hclosed (.inside hreached hrows)
    (List.forall_mem_cons.2 ⟨h.row, fun b hb => (hctx b hb).returned⟩)

end Rows.AggregatesPlaced

theorem Made.aggregatesPlaced (hkeys : KeysGroup env ns) (hclosed : SelectorsClosed env ns)
    (hmade : Made env ns place ctx x) : ∀ {rows}, x = .rows rows → Reached env ns place ctx →
      (∀ b ∈ ctx, b.Around place) → rows.AggregatesPlaced place := by
  induction hmade with
  | table =>
    rintro _ ⟨⟩ _ _
    exact ⟨nofun, nofun, (Binding.around_record _ _ _ _).returned,
      fun _ => Binding.around_record _ _ _ _⟩
  | wrap _ hls =>
    rintro _ ⟨⟩ _ _
    exact ⟨nofun, nofun, (Binding.around_readFrom hls).returned,
      fun _ => Binding.around_readFrom hls⟩
  | withOrigin _ _ ih | asDistinct _ _ ih =>
    rintro _ ⟨⟩ hreached hctx
    exact { ih rfl hreached hctx with }
  | withLimit _ he ih _ =>
    rintro _ ⟨⟩ hreached hctx
    exact (ih rfl hreached hctx).withLimit (he.around hclosed hreached hctx)
  | withOffset _ he ih _ =>
    rintro _ ⟨⟩ hreached hctx
    exact (ih rfl hreached hctx).withOffset (he.around hclosed hreached hctx)
  | unordered _ ih =>
    rintro _ ⟨⟩ hreached hctx
    exact (ih rfl hreached hctx).unordered
  | filterBy hrows hgroups he ih _ =>
    rintro _ ⟨⟩ hreached hctx
    have h := ih rfl hreached hctx
    exact h.filterBy (h.around hclosed hrows hreached hctx hgroups he)
  | havingBy hrows _ he ih _ =>
    rintro _ ⟨⟩ hreached hctx
    have h := ih rfl hreached hctx
    exact h.havingBy (h.returned hclosed hrows hreached hctx he)
  | withRow hrows _ hrow ih _ =>
    rintro _ ⟨⟩ hreached hctx
    have h := ih rfl hreached hctx
    exact { h with
      row := h.returned hclosed hrows hreached hctx hrow
      ungrouped := fun hgroups => h.around hclosed hrows hreached hctx hgroups hrow }
  | orderedBy hrows _ hbefore hkeys ih _ =>
    rintro _ ⟨⟩ hreached hctx
    have h := ih rfl hreached hctx
    exact h.orderedBy hbefore fun k hk => h.returned hclosed hrows hreached hctx (hkeys k hk)
  | groupedBy hrows hgroups hkey helement hls hcall ih _ _ =>
    rintro _ ⟨⟩ hreached hctx
    have h := ih rfl hreached hctx
    refine h.groupedBy (h.around hclosed hrows hreached hctx hgroups hkey)
      (h.around hclosed hrows hreached hctx hgroups helement) hls ?_
    simpa [Select.hasGroups] using hkeys _ _ _ hreached hcall
  | joined houter _ hungrouped hinner htables hinnerGroups hinnerRow hcondition hrow ihouter
      ihinner _ _ =>
    rintro _ ⟨⟩ hreached hctx
    have hleft := ihouter rfl hreached hctx
    have hright := ihinner rfl hreached hctx
    have hlabels := congrArg (List.map Table.label) htables
    have hjoined := Reached.joined hreached houter hungrouped hinner hlabels hinnerGroups hinnerRow
    have hbindings := Binding.around_sides (hleft.ungrouped hungrouped)
      (hright.ungrouped hinnerGroups) hinnerRow hctx
    exact hleft.joined (fun e he => (hcondition e he).around hclosed hjoined hbindings)
      (hrow.around hclosed hjoined hbindings)
  | _ => rintro _ ⟨⟩

/-- What is at hand inside of statements is around the places there. -/
theorem Reached.around (hkeys : KeysGroup env ns) (hclosed : SelectorsClosed env ns)
    (hreached : Reached env ns place ctx) : ∀ b ∈ ctx, b.Around place := by
  induction hreached with
  | outermost => nofun
  | inside hreached hrows ih =>
    rename_i place ctx rows
    have hplaced := hrows.aggregatesPlaced hkeys hclosed rfl hreached ih
    refine List.forall_mem_cons.2 ⟨?_, fun b hb => (ih b hb).mono (Place.le_enter _ _ _)⟩
    cases hgroups : rows.select.hasGroups with
    | true =>
      have hgrouped : (place.inside rows.select).grouped = true := by
        rw [Place.inside, Place.enter, hgroups, Bool.or_true]
      exact Binding.around_of_seen ((Reached.inside hreached hrows).seen _ List.mem_cons_self)
        hgrouped
    | false => exact (hplaced.ungrouped hgroups).mono (Place.le_enter _ _ _)
  | joined hreached houter hungrouped hinner _ hinnerGroups hinnerRow ih =>
    have houterRow := (houter.aggregatesPlaced hkeys hclosed rfl hreached ih).ungrouped hungrouped
    have hinnerAround := (hinner.aggregatesPlaced hkeys hclosed rfl hreached ih).ungrouped hinnerGroups
    exact fun b hb => (Binding.around_sides houterRow hinnerAround hinnerRow ih b hb).mono
      (Place.le_enter _ _ _)
  | element hreached hgroup ih =>
    obtain ⟨-, helement, -⟩ := Binding.Around.element (hgroup.around hclosed hreached ih)
    exact List.forall_mem_cons.2 ⟨helement, ih⟩
  | fewer _ hfewer ih => exact fun b hb => ih b (hfewer hb)

/-- Aggregates in what decides which rows there are, and aggregates in aggregates, are those over
groups of statements around. -/
def Select.PlacesAggregates (place : Place) (s : Select) : Prop :=
  (∀ e ∈ s.rowExprs, e.AggregatesAround place) ∧ ∀ e ∈ s.resultExprs, e.AggregatesOnce place

theorem Rows.AggregatesPlaced.select {rows : Rows} (h : rows.AggregatesPlaced place)
    {items : List SelectItem}
    (hitems : ∀ e ∈ items.filterMap SelectItem.expr?, e.AggregatesOnce place) :
    { rows.select with items := items }.PlacesAggregates place := by
  obtain ⟨-, hhaving, horder⟩ := Select.forall_resultExprs.1 h.resultExprs
  exact ⟨h.rowExprs, Select.forall_resultExprs.2 ⟨hitems, hhaving, horder⟩⟩

theorem Made.placesAggregates (hkeys : KeysGroup env ns) (hclosed : SelectorsClosed env ns)
    (hreached : Reached env ns place ctx) (hmade : Made env ns place ctx x) {s : Select}
    (hs : x = .statement s) : s.PlacesAggregates place := by
  have hctx := hreached.around hkeys hclosed
  cases hmade with
  | project hrows hitems _ =>
    cases hs
    have h := hrows.aggregatesPlaced hkeys hclosed rfl hreached hctx
    exact h.select fun e he => h.returned hclosed hrows hreached hctx (hitems e he)
  | count hrows _ _ =>
    cases hs
    have h := hrows.aggregatesPlaced hkeys hclosed rfl hreached hctx
    exact h.select (List.forall_mem_singleton.2
      (SqlExpr.aggregatesOnce_aggregateOf SqlExpr.aggregatesAround_wildcard))
  | total hrows hgroups _ hvalue op =>
    cases hs
    have h := hrows.aggregatesPlaced hkeys hclosed rfl hreached hctx
    exact h.select (List.forall_mem_singleton.2 (SqlExpr.aggregatesOnce_aggregateOver op
      (h.around hclosed hrows hreached hctx hgroups hvalue)))
  | item hvalue origin =>
    cases hs
    have he := hvalue.around hclosed hreached hctx
    exact ⟨nofun, List.forall_mem_singleton.2 (SqlExpr.AggregatesAround.once he)⟩
  | _ => cases hs

namespace Form

variable {catalog : Catalog} {dialect : Dialect} {e : Expr} {f : Form}

/-- Where every GroupBy has a key and what is aggregated over a group is said of its elements alone,
no statement in a form aggregates what decides which rows there are, or what it aggregates, except
over groups of statements around it. -/
theorem places_aggregates (h : ofExpr catalog dialect e = .ok f)
    (hkeys : KeysGroup (.ofExpr catalog dialect e) e.nodes)
    (hclosed : SelectorsClosed (.ofExpr catalog dialect e) e.nodes) :
    f.select.Meets (.each Select.PlacesAggregates) .outermost := by
  refine meets_each h fun hle hreached hmade => ?_
  obtain ⟨hrows, hresults⟩ := hmade.placesAggregates hkeys hclosed hreached rfl
  exact ⟨fun e he => (hrows e he).mono hle, fun e he => (hresults e he).mono hle⟩

theorem apply_readsElement (env : Surroundings) (i j k : NodeId) (param name : String) (scope : Scope)
    (elements : List Binding) :
    ((Expr.lambda i [param] (.member j (.param k param) name)).meaning env).apply scope elements =
      ((Expr.lambda i [param] (.member j (.param k param) name)).meaning env).apply [] elements := by
  match elements with
  | [] | _ :: _ :: _ => simp [Expr.meaning, Meaning.ofLambda]
  | [b] => simp [Expr.meaning, Meaning.ofLambda, Meaning.ofBinding, lookUp]

/-- `Person.GroupBy(key).Select(g => new { n = g.Count(), oldest = g.Max(p => p.Age) })`, of which
those with `n > 1` are kept. -/
def sharedBy (key : Expr) : Expr :=
  .call 0 .filter [.call 1 .project [.call 2 .groupBy [.entity 3 "Person", .lambda 4 ["p"] key],
    .lambda 5 ["g"] (.object 6 [("n", .call 7 .count [.param 8 "g"]),
      ("oldest", .call 9 .max [.param 10 "g", .lambda 11 ["p"] (.member 12 (.param 13 "p") "Age")])])],
    .lambda 14 ["x"] (.binary 15 .greaterThan (.member 16 (.param 17 "x") "n") (.const 18 (.int 1)))]

def cityOf : Expr := .member 19 (.param 20 "p") "City"

theorem places_aggregates_sharedBy_cityOf :
    KeysGroup (.ofExpr residents (Postgres.dialect false) (sharedBy cityOf)) (sharedBy cityOf).nodes ∧
      SelectorsClosed (.ofExpr residents (Postgres.dialect false) (sharedBy cityOf))
        (sharedBy cityOf).nodes ∧
      ∃ f, ofExpr residents (Postgres.dialect false) (sharedBy cityOf) = .ok f ∧
        f.select.filter.isSome = true ∧
        f.select.Meets (.each Select.PlacesAggregates) .outermost := by
  have hkeys : KeysGroup (.ofExpr residents (Postgres.dialect false) (sharedBy cityOf))
      (sharedBy cityOf).nodes := by
    rintro place ctx rows - ⟨i, es, scope, p, q, hcall, -, hrun⟩
    simp only [sharedBy, cityOf, Expr.nodes, Expr.nodesOfList, Expr.nodesOfFields, List.mem_cons,
      List.mem_append, List.not_mem_nil, reduceCtorEq, Expr.call.injEq, or_false, false_or,
      false_and, and_false, true_and] at hcall
    obtain ⟨rfl, rfl⟩ := hcall
    cases hrun
    rfl
  have hclosed : SelectorsClosed (.ofExpr residents (Postgres.dialect false) (sharedBy cityOf))
      (sharedBy cityOf).nodes := by
    intro i op source selector rest hcall hreference scope elements
    simp only [sharedBy, cityOf, Expr.nodes, Expr.nodesOfList, Expr.nodesOfFields, List.mem_cons,
      List.mem_append, List.not_mem_nil, reduceCtorEq, Expr.call.injEq, or_false,
      false_or] at hcall
    rcases hcall with ⟨-, -, h⟩ | ⟨-, -, h⟩ | ⟨-, -, h⟩ | ⟨-, -, h⟩ | ⟨-, -, h⟩ <;> cases h
    iterate 3 cases hreference
    exact apply_readsElement _ _ _ _ _ _ _ _
  obtain ⟨f, hf, hfilter⟩ : ∃ f, ofExpr residents (Postgres.dialect false) (sharedBy cityOf) =
      .ok f ∧ f.select.filter.isSome = true := ⟨_, rfl, rfl⟩
  exact ⟨hkeys, hclosed, f, hf, hfilter, places_aggregates hf hkeys hclosed⟩

/-- `SELECT COUNT(*) AS n, MAX(t0.age) AS oldest FROM people AS t0 WHERE COUNT(*) > $1`: without a key
the groups are kept by a condition on rows. -/
theorem not_places_aggregates_sharedBy_nothing : ∃ f,
    ofExpr residents (Postgres.dialect false) (sharedBy (.object 19 [])) = .ok f ∧
      ¬ f.select.Meets (.each Select.PlacesAggregates) .outermost := by
  obtain ⟨f, hf, hfilter⟩ : ∃ f, ofExpr residents (Postgres.dialect false)
      (sharedBy (.object 19 [])) = .ok f ∧
        f.select.filter = some (.binary .gt .countRows (.param (.slot 0))) := ⟨_, rfl, rfl⟩
  refine ⟨f, hf, fun h => ?_⟩
  cases h with
  | select hplaced =>
    obtain ⟨-, hcondition, -⟩ := Select.forall_rowExprs.1 hplaced.1
    have hcount := hcondition _ hfilter "COUNT" [.wildcard] false
      (.part List.mem_cons_self (.self _))
    exact absurd hcount.1 (by decide)

end Form

end SequenceQuery
