import SequenceQuery.Proofs.Certain
import SequenceQuery.Proofs.Construction
import SequenceQuery.Proofs.RowConstruction
import SequenceQuery.Proofs.Fitting
import SequenceQuery.Proofs.Simulation

namespace SequenceQuery

variable {w : World} {g g' : Ground} {b : Binding} {s : Scalar} {ctx : List Binding}

namespace Scalar

theorem Sound.mono (h : s.Sound w g) (hle : g ≤ g') : s.Sound w g' where
  sure hflag := (h.sure hflag).mono hle
  plain hplain := h.plain (Bool.eq_false_iff.2 fun hgrouped => Bool.eq_false_iff.1 hplain
    (hle.2.2 hgrouped))

theorem Sound.asNullable (h : s.Sound w g) (hplain : g.grouped = false) :
    Sound w g' ⟨s.expr, true⟩ where
  sure := nofun
  plain _ := h.plain hplain

theorem sound_of_always {e : SqlExpr} (h : e.Always w) (hplain : g.grouped = false →
    e.hasAggregate = false) (nullable : Bool) : Sound w g ⟨e, nullable⟩ :=
  ⟨fun _ => h.sure, hplain⟩

end Scalar

namespace Binding

/-- The flags of a binding can be trusted where its values are not doubted, and there are groups
only where rows are grouped. -/
inductive Sound (w : World) (g : Ground) : Binding → Prop
  | record {label : String} {entity : Entity} {columnPrefix : String} {optional : Bool}
    (h : ∀ p ∈ entity.properties,
      Scalar.Sound w g ⟨.columnOf label (columnPrefix ++ p.column), p.nullable || optional⟩) :
    Sound w g (.record label entity columnPrefix optional)
  | object {fields : List (String × Binding)} (h : ∀ f ∈ fields, Sound w g f.2) :
    Sound w g (.object fields)
  | scalar {s : Scalar} (h : s.Sound w g) : Sound w g (.scalar s)
  | group {key element : Binding} (hgrouped : g.grouped = true) (hkey : Sound w g key)
    (helement : Sound w g element) : Sound w g (.group key element)

theorem Sound.grouped (h : b.Sound w g) (hgroup : b.isGroup = true) : g.grouped = true := by
  cases h with
  | group hgrouped _ _ => exact hgrouped
  | _ => cases hgroup

theorem Sound.mono (h : b.Sound w g) (hle : g ≤ g') : b.Sound w g' := by
  induction h with
  | record h => exact .record fun p hp => (h p hp).mono hle
  | object _ ih => exact .object ih
  | scalar h => exact .scalar (h.mono hle)
  | group hgrouped _ _ ihkey ihelement => exact .group (hle.2.2 hgrouped) ihkey ihelement

mutual

theorem Sound.asOptional (hplain : g.grouped = false) :
    ∀ {b : Binding}, b.Sound w g → b.asOptional.Sound w g'
  | .record .., .record h => .record fun p hp => by
    rw [Bool.or_true]
    exact (h p hp).asNullable hplain
  | .object _, .object h => .object (fieldsAsOptional_sound hplain h)
  | .scalar _, .scalar h => .scalar (h.asNullable hplain)
  | .group .., .group hgrouped _ _ => absurd hgrouped (Bool.eq_false_iff.1 hplain)

theorem fieldsAsOptional_sound (hplain : g.grouped = false) :
    ∀ {fields : List (String × Binding)}, (∀ f ∈ fields, f.2.Sound w g) →
      ∀ f ∈ fieldsAsOptional fields, f.2.Sound w g'
  | [], _ => List.forall_mem_nil _
  | (_, _) :: _, h => by
    obtain ⟨hb, hrest⟩ := List.forall_mem_cons.1 h
    exact List.forall_mem_cons.2 ⟨hb.asOptional hplain, fieldsAsOptional_sound hplain hrest⟩

end

mutual

theorem Sound.leaves? : ∀ {b : Binding} {path : String} {ls : List Leaf}, b.Sound w g →
    b.leaves? path = some ls → ∀ l ∈ ls, l.scalar.Sound w g
  | .record .., _, _, .record h, hls => by
    cases hls
    exact List.forall_mem_map.2 h
  | .object fields, _, _, .object h, hls => fieldLeaves?_sound h hls
  | .scalar s, _, _, .scalar h, hls => by
    cases hls
    exact List.forall_mem_singleton.2 h
  | .group .., _, _, _, hls => nomatch hls

theorem fieldLeaves?_sound : ∀ {fields : List (String × Binding)} {path : String} {ls : List Leaf},
    (∀ f ∈ fields, f.2.Sound w g) → fieldLeaves? path fields = some ls →
      ∀ l ∈ ls, l.scalar.Sound w g
  | [], _, _, _, hls => by
    cases hls
    exact List.forall_mem_nil _
  | (_, _) :: _, _, _, h, hls => by
    obtain ⟨hb, hrest⟩ := List.forall_mem_cons.1 h
    obtain ⟨first, hfirst, hls⟩ := Option.bind_eq_some_iff.1 hls
    obtain ⟨others, hothers, hls⟩ := Option.bind_eq_some_iff.1 hls
    rw [← Option.some.inj hls]
    exact List.forall_mem_append.2 ⟨hb.leaves? hfirst, fieldLeaves?_sound hrest hothers⟩

end

mutual

/-- Read from a derived table, a binding is as good as the columns that its leaves are read from. -/
theorem sound_readFrom (label : String) : ∀ {b : Binding} {path : String} {ls : List Leaf},
    b.leaves? path = some ls →
      (∀ l ∈ ls, Scalar.Sound w g ⟨.columnOf label l.name, l.scalar.nullable⟩) →
        (b.readFrom label path).Sound w g
  | .record _ entity _ optional, path, _, hls, h => by
    cases hls
    refine .record fun p hp => ?_
    have hcolumn := List.forall_mem_map.1 h p hp
    rwa [subpath_eq] at hcolumn
  | .object fields, path, _, hls, h => .object (readFieldsFrom_sound label hls h)
  | .scalar s, path, _, hls, h => by
    cases hls
    exact .scalar (h _ List.mem_cons_self)
  | .group .., _, _, hls, _ => nomatch hls

theorem readFieldsFrom_sound (label : String) : ∀ {fields : List (String × Binding)}
    {path : String} {ls : List Leaf}, fieldLeaves? path fields = some ls →
      (∀ l ∈ ls, Scalar.Sound w g ⟨.columnOf label l.name, l.scalar.nullable⟩) →
        ∀ f ∈ readFieldsFrom label path fields, f.2.Sound w g
  | [], _, _, _, _ => List.forall_mem_nil _
  | (_, _) :: _, _, _, hls, h => by
    obtain ⟨first, hfirst, hls⟩ := Option.bind_eq_some_iff.1 hls
    obtain ⟨others, hothers, hls⟩ := Option.bind_eq_some_iff.1 hls
    rw [← Option.some.inj hls] at h
    obtain ⟨hleft, hright⟩ := List.forall_mem_append.1 h
    exact List.forall_mem_cons.2
      ⟨sound_readFrom label hfirst hleft, readFieldsFrom_sound label hothers hright⟩

end

def SoundIn (w : World) (ctx : List Binding) (b : Binding) : Prop :=
  ∀ g : Ground, g.Upheld → (∀ b ∈ ctx, b.Sound w g) → b.Sound w g

end Binding

def Scalar.SoundIn (w : World) (ctx : List Binding) (s : Scalar) : Prop :=
  ∀ g : Ground, g.Upheld → (∀ b ∈ ctx, b.Sound w g) → s.Sound w g

section

variable {more : List Binding} {node : Expr}

namespace Binding

theorem SoundIn.mono (h : b.SoundIn w ctx) (hctx : ctx ⊆ more) : b.SoundIn w more :=
  fun g hg hmore => h g hg fun b hb => hmore b (hctx hb)

theorem soundIn_of_mem (h : b ∈ ctx) : b.SoundIn w ctx := fun _ _ hctx => hctx b h

theorem SoundIn.asScalar (h : b.SoundIn w ctx) (hs : b.asScalar node = .ok s) :
    s.SoundIn w ctx := by
  obtain rfl := asScalar_ok hs
  intro g hg hctx
  cases h g hg hctx with
  | scalar hsound => exact hsound

theorem SoundIn.member {found : Binding} {name : String} (h : b.SoundIn w ctx)
    (hm : b.member name node = .ok found) : found.SoundIn w ctx := by
  intro g hg hctx
  have hb := h g hg hctx
  cases member_ok hm with
  | column hp =>
    cases hb with
    | record hcolumns => exact .scalar (hcolumns _ (Text.findNamed?_mem hp))
  | field hf =>
    cases hb with
    | object hfields => exact hfields _ (Text.findNamed?_mem hf)
  | key _ =>
    cases hb with
    | group _ hkey _ => exact hkey

theorem SoundIn.element {key element : Binding} (h : (group key element).SoundIn w ctx) :
    element.SoundIn w ctx := by
  intro g hg hctx
  cases h g hg hctx with
  | group _ _ helement => exact helement

end Binding

namespace Scalar

theorem SoundIn.cut (h : s.SoundIn w (b :: ctx)) (hb : b.SoundIn w ctx) : s.SoundIn w ctx :=
  fun g hg hctx => h g hg (List.forall_mem_cons.2 ⟨hb g hg hctx, hctx⟩)

theorem soundIn_of_always {e : SqlExpr} (h : e.Always w) (hplain : e.hasAggregate = false)
    (nullable : Bool) : SoundIn w ctx ⟨e, nullable⟩ :=
  fun _ _ _ => sound_of_always h (fun _ => hplain) nullable

variable {l r : Scalar}

theorem SoundIn.binary {op : SqlBinary} (hop : op ≠ .like) (hl : l.SoundIn w ctx)
    (hr : r.SoundIn w ctx) :
    SoundIn w ctx ⟨.binary op l.expr r.expr, l.nullable || r.nullable⟩ := by
  intro g hg hctx
  have hleft := hl g hg hctx
  have hright := hr g hg hctx
  refine ⟨fun hflag => ?_, fun hplain => ?_⟩
  · obtain ⟨hl, hr⟩ := (Bool.or_eq_false_iff ..).mp hflag
    exact SqlExpr.sure_binary hop (hleft.sure hl) (hright.sure hr)
  · rw [SqlExpr.hasAggregate, hleft.plain hplain, hright.plain hplain, Bool.or_false]

theorem SoundIn.coalesce (hl : l.SoundIn w ctx) (hr : r.SoundIn w ctx) :
    SoundIn w ctx ⟨.coalesce [l.expr, r.expr], l.nullable && r.nullable⟩ := by
  intro g hg hctx
  have hleft := hl g hg hctx
  have hright := hr g hg hctx
  refine ⟨fun hflag => SqlExpr.sure_coalesce fun _ => ?_, fun hplain => ?_⟩
  · rcases (Bool.and_eq_false_iff ..).mp hflag with hl | hr
    · exact ⟨_, List.mem_cons_self, hleft.sure hl⟩
    · exact ⟨_, List.mem_cons_of_mem _ List.mem_cons_self, hright.sure hr⟩
  · simp only [SqlExpr.coalesce, SqlExpr.hasAggregate, anyAggregate, hleft.plain hplain,
      hright.plain hplain, Bool.or_false]

theorem SoundIn.unary (op : SqlUnary) (h : s.SoundIn w ctx) :
    SoundIn w ctx ⟨.unary op s.expr, s.nullable⟩ := by
  intro g hg hctx
  have hs := h g hg hctx
  refine ⟨fun hflag => ?_, fun hplain => ?_⟩
  · cases op with
    | not => exact SqlExpr.sure_not (hs.sure hflag)
    | minus => exact SqlExpr.sure_minus (hs.sure hflag)
  · rw [SqlExpr.hasAggregate, hs.plain hplain]

theorem SoundIn.isNull (h : s.SoundIn w ctx) (negated : Bool) :
    SoundIn w ctx ⟨.isNull s.expr negated, false⟩ := by
  intro g hg hctx
  refine sound_of_always (SqlExpr.always_isNull _ _) (fun hplain => ?_) _
  rw [SqlExpr.hasAggregate, (h g hg hctx).plain hplain]

theorem SoundIn.cases {test : Scalar} (htest : test.SoundIn w ctx) (hl : l.SoundIn w ctx)
    (hr : r.SoundIn w ctx) :
    SoundIn w ctx ⟨.cases [(test.expr, l.expr)] (some r.expr), l.nullable || r.nullable⟩ := by
  intro g hg hctx
  have hleft := hl g hg hctx
  have hright := hr g hg hctx
  refine ⟨fun hflag => ?_, fun hplain => ?_⟩
  · obtain ⟨hl, hr⟩ := (Bool.or_eq_false_iff ..).mp hflag
    exact SqlExpr.sure_cases test.expr (hleft.sure hl) (hright.sure hr)
  · simp only [SqlExpr.hasAggregate, armsAggregate, (htest g hg hctx).plain hplain,
      hleft.plain hplain, hright.plain hplain, Bool.or_false]

theorem anyAggregate_eq_false {es : List SqlExpr} :
    anyAggregate es = false ↔ ∀ e ∈ es, e.hasAggregate = false := by
  induction es with
  | nil => simp [anyAggregate]
  | cons e es ih => simp [anyAggregate, ih]

theorem soundIn_function (name : String) {ss : List Scalar} (h : ∀ s ∈ ss, s.SoundIn w ctx) :
    SoundIn w ctx ⟨.function name (ss.map Scalar.expr), ss.any Scalar.nullable⟩ := by
  intro g hg hctx
  have hsound : ∀ s ∈ ss, s.Sound w g := fun s hs => h s hs g hg hctx
  refine ⟨fun hflag => SqlExpr.sure_function name ?_, fun hplain => ?_⟩
  · exact List.forall_mem_map.2 fun s hs =>
      (hsound s hs).sure (Bool.eq_false_iff.2 (List.any_eq_false.1 hflag s hs))
  · rw [SqlExpr.hasAggregate, anyAggregate_eq_false]
    exact List.forall_mem_map.2 fun s hs => (hsound s hs).plain hplain

theorem hasAggregate_searchPattern (name : String) (needle : SqlExpr) :
    ((searchPattern? name needle).getD needle).hasAggregate = needle.hasAggregate := by
  unfold searchPattern?
  split <;> simp [SqlExpr.hasAggregate]

theorem SoundIn.like (name : String) {text needle : Scalar} (htext : text.SoundIn w ctx)
    (hneedle : needle.SoundIn w ctx) :
    SoundIn w ctx ⟨.binary .like text.expr ((searchPattern? name needle.expr).getD needle.expr),
      text.nullable⟩ := by
  intro g hg hctx
  have ht := htext g hg hctx
  have hn := hneedle g hg hctx
  refine ⟨fun hflag => SqlExpr.sure_like (ht.sure hflag) _, fun hplain => ?_⟩
  · rw [SqlExpr.hasAggregate, hasAggregate_searchPattern, ht.plain hplain, hn.plain hplain,
      Bool.or_false]

theorem SoundIn.aggregateOver {key element : Binding} (op : Operator)
    (hb : (Binding.group key element).SoundIn w ctx) (h : s.SoundIn w ctx) :
    (aggregateOver op s).SoundIn w ctx := by
  intro g hg hctx
  have hs := h g hg hctx
  cases hb g hg hctx with
  | group hgrouped _ _ =>
    have grouped : ∀ {e : SqlExpr}, g.grouped = false → e.hasAggregate = false :=
      fun hplain => absurd hgrouped (Bool.eq_false_iff.1 hplain)
    cases op with
    | sum => exact sound_of_always (SqlExpr.always_sum _) grouped _
    | _ => exact ⟨fun hflag => SqlExpr.sure_aggregateOf _ (hs.sure hflag), grouped⟩

theorem soundIn_count {key element : Binding} (hb : (Binding.group key element).SoundIn w ctx)
    (es : List SqlExpr) : SoundIn w ctx ⟨.aggregateOf "COUNT" es, false⟩ := by
  intro g hg hctx
  cases hb g hg hctx with
  | group hgrouped _ _ =>
    exact sound_of_always (SqlExpr.always_count es false)
      (fun hplain => absurd hgrouped (Bool.eq_false_iff.1 hplain)) _

theorem soundIn_subquery {q : Select} {nullable : Bool}
    (h : nullable = false → q.mayLackValue = false → (SqlExpr.subquery q).Always w) :
    SoundIn w ctx ⟨.subquery q, nullable⟩ := by
  intro g _ _
  refine ⟨fun hflag => ?_, fun _ => rfl⟩
  exact fun g' hle hg' hdoubts => (h hflag hdoubts).sure g' hle hg' hdoubts

theorem SoundIn.isIn (h : s.SoundIn w ctx) (q : Select) (nullable : Bool) :
    SoundIn w ctx ⟨.isIn s.expr q false, nullable⟩ := by
  intro g hg hctx
  refine ⟨fun _ => ?_, fun hplain => ?_⟩
  · exact fun _ _ _ hdoubts => nomatch hdoubts
  · rw [SqlExpr.hasAggregate, (h g hg hctx).plain hplain]

end Scalar

end

end SequenceQuery
