import SequenceQuery.Form.Basic
import SequenceQuery.Proofs.Layout
import SequenceQuery.Proofs.Related
import Mathlib.Data.List.Forall2

namespace SequenceQuery

theorem lastIndex?_lt {α : Type} [DecidableEq α] {x : α} {xs : List α} {i : Nat}
    (h : lastIndex? x xs = some i) : i < xs.length :=
  (List.getElem?_eq_some_iff.1 (lastIndex?_eq_some_iff.1 h).1).1

theorem lastIndex?_concat {α : Type} [DecidableEq α] (x y : α) (xs : List α) :
    lastIndex? x (xs ++ [y]) = if y = x then some xs.length else lastIndex? x xs := by
  induction xs with
  | nil => simp [lastIndex?]
  | cons z xs ih =>
    rw [List.cons_append, lastIndex?, ih, lastIndex?]
    by_cases h : y = x <;> simp [h]

/-- A name is looked up by the position of its innermost binder. -/
theorem lookup_eq_lastIndex? (s : Scope) (name : String) :
    s.lookup name = (lastIndex? name (s.map Prod.fst).reverse).bind fun i =>
      (s.map Prod.snd).reverse[i]? := by
  induction s with
  | nil => rfl
  | cons entry s ih =>
    obtain ⟨m, b⟩ := entry
    rw [List.map_cons, List.map_cons, List.reverse_cons, List.reverse_cons, lastIndex?_concat]
    by_cases h : m = name
    · simp [h]
    · rw [List.lookup_cons, if_neg h, beq_eq_false_iff_ne.2 (Ne.symm h)]
      simp only [ih]
      cases hi : lastIndex? name (s.map Prod.fst).reverse with
      | none => rfl
      | some i =>
        have hlt := lastIndex?_lt hi
        simp only [List.length_reverse, List.length_map] at hlt
        simp [List.getElem?_append_left, hlt]

structure SameScope (σ σ' : List String) (s s' : Scope) : Prop where
  names : s.map Prod.fst = σ.reverse
  names' : s'.map Prod.fst = σ'.reverse
  bindings : s.map (fun entry => entry.2.bare) = s'.map fun entry => entry.2.bare

namespace Skeleton

def isNull : Skeleton → Bool
  | .const .null => true
  | _ => false

def isPath : Skeleton → Bool
  | .bound _ | .free _ | .member .. => true
  | _ => false

end Skeleton

namespace Expr

theorem isNull_eq (σ : List String) (e : Expr) : e.isNull = (e.skeletonIn σ).isNull := by
  cases e with
  | const id v => cases v <;> rfl
  | param id name => rw [skeletonIn]; cases lastIndex? name σ <;> rfl
  | _ => rfl

end Expr

namespace Surroundings

def place (env : Surroundings) (node : Expr) : Option Nat × Bool :=
  (env.slot? node.id, env.marker = some node.id)

end Surroundings

/-- Meanings that cannot be told apart: their nodes stand in one place of one skeleton, and read in
scopes that are alike they give what is alike. -/
structure Meaning.Alike (env env' : Surroundings) (σ σ' : List String) (m m' : Meaning) :
    Prop where
  skeleton : m.node.skeletonIn σ = m'.node.skeletonIn σ'
  place : env.place m.node = env'.place m'.node
  asSequence : ∀ {s s'}, SameScope σ σ' s s' → ∀ inRun,
    Related SameRows (m.asSequence inRun s) (m'.asSequence inRun s')
  asBinding : ∀ {s s'}, SameScope σ σ' s s' →
    Related (fun b b' => b.bare = b'.bare) (m.asBinding s) (m'.asBinding s')
  apply : ∀ {s s'}, SameScope σ σ' s s' → ∀ {bs bs'}, bs.map Binding.bare = bs'.map Binding.bare →
    Related (fun b b' => b.bare = b'.bare) (m.apply s bs) (m'.apply s' bs')

section Functions

variable {env env' : Surroundings} {σ σ' : List String} {s s' : Scope} {m m' : Meaning}
  {args args' : List Meaning} {r r' : Rows} {b b' : Binding} (node node' : Expr)

theorem getElem?_related {α β : Type} {R : α → β → Prop} {as : List α} {bs : List β}
    (h : List.Forall₂ R as bs) (i : Nat) : (as[i]? = none ∧ bs[i]? = none) ∨
      ∃ a b, as[i]? = some a ∧ bs[i]? = some b ∧ R a b := by
  induction h generalizing i with
  | nil => simp
  | cons hab _ ih =>
    cases i with
    | zero => exact .inr ⟨_, _, rfl, rfl, hab⟩
    | succ i => simpa using ih i

theorem argument_agree (h : List.Forall₂ (Meaning.Alike env env' σ σ') args args') (i : Nat) :
    Agree (Meaning.Alike env env' σ σ') (argument node args i) (argument node' args' i) := by
  rcases getElem?_related h i with ⟨ha, ha'⟩ | ⟨m, m', ha, ha', hm⟩
  · rw [argument, argument, ha, ha']
    exact .unsupported ..
  · rw [argument, argument, ha, ha']
    exact .ok hm

namespace Meaning

theorem Alike.asScalar (hm : Alike env env' σ σ' m m') (hs : SameScope σ σ' s s') :
    Related (fun a a' => a.bare = a'.bare) (m.asScalar s) (m'.asScalar s') :=
  (hm.asBinding hs).bind fun _ _ hb => .lift (Binding.asScalar_agree _ _ hb)

theorem Alike.applyOne (hm : Alike env env' σ σ' m m') (hs : SameScope σ σ' s s')
    (hb : b.bare = b'.bare) :
    Related (fun b b' => b.bare = b'.bare) (m.apply s [b]) (m'.apply s' [b']) :=
  hm.apply hs (by simp [hb])

theorem Alike.applyScalar (hm : Alike env env' σ σ' m m') (hs : SameScope σ σ' s s')
    (hb : b.bare = b'.bare) :
    Related (fun a a' => a.bare = a'.bare) (m.applyScalar s b) (m'.applyScalar s' b') :=
  (hm.applyOne hs hb).bind fun _ _ hb => .lift (Binding.asScalar_agree _ _ hb)

theorem scalars_related (h : List.Forall₂ (Alike env env' σ σ') args args')
    (hs : SameScope σ σ' s s') :
    Related (fun l l' => l.map Scalar.bare = l'.map Scalar.bare) (scalars s args)
      (scalars s' args') := by
  induction h with
  | nil => exact .pure rfl
  | cons hm _ ih =>
    refine (hm.asScalar hs).bind fun a a' ha => ih.bind fun l l' hl => .pure ?_
    rw [List.map_cons, List.map_cons, ha, hl]

theorem bindFields_related {fields fields' : List (String × Meaning)}
    (h : List.Forall₂ (fun f f' => f.1 = f'.1 ∧ Alike env env' σ σ' f.2 f'.2) fields fields')
    (hs : SameScope σ σ' s s') :
    Related (fun l l' => Binding.bareFields l = Binding.bareFields l') (bindFields s fields)
      (bindFields s' fields') := by
  induction h with
  | nil => exact .pure rfl
  | @cons f f' _ _ hf _ ih =>
    obtain ⟨name, m⟩ := f
    obtain ⟨name', m'⟩ := f'
    obtain ⟨rfl, hm⟩ := hf
    refine (hm.asBinding hs).bind fun b b' hb => ih.bind fun l l' hl => .pure ?_
    rw [Binding.bareFields, Binding.bareFields, hb, hl]

end Meaning

theorem bare_negateIf {e e' : SqlExpr} (negate : Bool) (h : e.bare = e'.bare) :
    (negateIf negate e).bare = (negateIf negate e').bare := by
  cases negate with
  | true => exact congrArg (SqlExpr.unary .not) h
  | false => exact h

theorem bare_conjoin (c : Option SqlExpr) (p : SqlExpr) :
    (SqlExpr.conjoin c p).bare = SqlExpr.conjoin (c.map SqlExpr.bare) p.bare := by
  cases c <;> rfl

theorem SameRows.filterBy (h : SameRows r r') {e e' : SqlExpr} (he : e.bare = e'.bare) :
    SameRows { r with select := r.select.filterBy e }
      { r' with select := r'.select.filterBy e' } := by
  refine ⟨?_, h.2⟩
  have hs := h.1
  simp only [Select.filterBy, Select.bare_eq, Select.mk.injEq] at hs ⊢
  simp only [hs, Option.map_some, bare_conjoin, he, and_self]

theorem SameRows.havingBy (h : SameRows r r') {e e' : SqlExpr} (he : e.bare = e'.bare) :
    SameRows { r with select := r.select.havingBy e }
      { r' with select := r'.select.havingBy e' } := by
  refine ⟨?_, h.2⟩
  have hs := h.1
  simp only [Select.havingBy, Select.bare_eq, Select.mk.injEq] at hs ⊢
  simp only [hs, Option.map_some, bare_conjoin, he, and_self]

theorem restrict_related (h : SameRows r r') (hm : Meaning.Alike env env' σ σ' m m')
    (negate : Bool) (hs : SameScope σ σ' s s') :
    Related SameRows (restrict r m negate node s) (restrict r' m' negate node' s') := by
  simp only [restrict, h.isGroup]
  split
  · simp only [h.hasPaging, h.distinct]
    split
    · exact .refused node node' _
    · exact (hm.applyScalar hs h.2).bind fun p p' hp =>
        .pure (h.havingBy (bare_negateIf negate (congrArg Scalar.expr hp)))
  · exact (Rows.wrapForRows_related node node' h).bind fun r r' h =>
      (hm.applyScalar hs h.2).bind fun p p' hp =>
        .pure (h.filterBy (bare_negateIf negate (congrArg Scalar.expr hp)))

theorem matching_bare (ls rs : List Scalar) :
    (matching ls rs).map SqlExpr.bare = matching (ls.map Scalar.bare) (rs.map Scalar.bare) := by
  have fold : ∀ (ls rs : List Scalar) (e : SqlExpr),
      ((ls.zip rs).foldl (fun e p => .and e (.binary .eq p.1.expr p.2.expr)) e).bare =
        ((ls.map Scalar.bare).zip (rs.map Scalar.bare)).foldl
          (fun e p => .and e (.binary .eq p.1.expr p.2.expr)) e.bare := by
    intro ls
    induction ls with
    | nil => intros; rfl
    | cons l ls ih =>
      intro rs e
      cases rs with
      | nil => rfl
      | cons r rs => exact ih rs _
  cases ls with
  | nil => rfl
  | cons l ls =>
    cases rs with
    | nil => rfl
    | cons r rs => exact congrArg some (fold ls rs _)

theorem bareJoins_concat (joins : List Join) (kind : JoinKind) (table : Table)
    (condition : Option SqlExpr) : bareJoins (joins ++ [⟨kind, table, condition⟩]) =
      bareJoins joins ++ [⟨kind, table.bare, condition.map SqlExpr.bare⟩] := by
  induction joins with
  | nil => simp [bareJoins, bareOption_eq_map]
  | cons j joins ih =>
    obtain ⟨kind', table', condition'⟩ := j
    simp only [List.cons_append, bareJoins, ih]

theorem joinRows_related (kind : JoinKind)
    (ha : List.Forall₂ (Meaning.Alike env env' σ σ') args args') (hs : SameScope σ σ' s s') :
    Related SameRows (joinRows kind node args s) (joinRows kind node' args' s') := by
  refine (Related.lift (argument_agree node node' ha 0)).bind fun m m' hm => ?_
  refine (hm.asSequence hs false).bind fun outer outer' ho => ?_
  refine (Rows.wrapForRows_related node node' ho).bind fun outer outer' ho => ?_
  refine (Related.lift (argument_agree node node' ha 1)).bind fun m m' hm => ?_
  refine (hm.asSequence hs false).bind fun inner inner' hi => ?_
  refine (Rows.wrapIf_related node node' (by rw [hi.isBareTable]) hi).bind
    fun inner inner' hi => ?_
  have hsource := congrArg Select.source hi.1
  rw [Select.bare_eq, Select.bare_eq] at hsource
  revert hsource
  dsimp only
  cases inner.select.source <;> cases inner'.select.source <;> intro hsource
  · exact .unsupported node node' _
  · simp at hsource
  · simp at hsource
  rename_i table table'
  have htable : table.bare = table'.bare := Option.some.inj hsource
  refine (Related.lift (argument_agree node node' ha 2)).bind fun m m' hm => ?_
  refine (hm.applyOne hs ho.2).bind fun outerKey outerKey' hok => ?_
  refine (Related.lift (argument_agree node node' ha 3)).bind fun m m' hm => ?_
  refine (hm.applyOne hs hi.2).bind fun innerKey innerKey' hik => ?_
  refine (Related.lift (Binding.scalars_agree node node' hok)).bind fun ok ok' hok => ?_
  refine (Related.lift (Binding.scalars_agree node node' hik)).bind fun ik ik' hik => ?_
  have hlength : ok.length = ok'.length := by simpa using congrArg List.length hok
  have hlength' : ik.length = ik'.length := by simpa using congrArg List.length hik
  have hempty : ok.isEmpty = ok'.isEmpty := by simpa using congrArg List.isEmpty hok
  simp only [hlength, hlength', hempty]
  split
  · exact .refused node node' _
  refine (Related.lift (argument_agree node node' ha 4)).bind fun m m' hm => ?_
  -- The far side of a left join is made optional before the result is taken from both sides.
  refine (hm.apply hs (by cases kind <;> simp [ho.2, hi.2, Binding.asOptional_bare])).bind
    fun row row' hrow => .pure ⟨?_, hrow⟩
  have hselect := ho.1
  simp only [Select.bare_eq, Select.mk.injEq] at hselect ⊢
  simp only [hselect, bareJoins_concat, htable, matching_bare, hok, hik, and_self]

theorem bareKeys_append (keys keys' : List SortKey) :
    bareKeys (keys ++ keys') = bareKeys keys ++ bareKeys keys' := by
  induction keys with
  | nil => rfl
  | cons k keys ih =>
    obtain ⟨e, ascending⟩ := k
    simp only [List.cons_append, bareKeys, ih]

theorem bareKeys_map (ascending : Bool) (l : List Scalar) :
    bareKeys (l.map fun a => ⟨a.expr, ascending⟩) =
      (l.map Scalar.bare).map fun a => ⟨a.expr, ascending⟩ := by
  induction l with
  | nil => rfl
  | cons a l ih => simp only [List.map_cons, bareKeys, ih, Scalar.bare]

theorem orderRows_related (restart ascending : Bool)
    (ha : List.Forall₂ (Meaning.Alike env env' σ σ') args args') (hs : SameScope σ σ' s s') :
    Related SameRows (orderRows restart ascending node args s)
      (orderRows restart ascending node' args' s') := by
  refine (Related.lift (argument_agree node node' ha 0)).bind fun m m' hm => ?_
  refine (hm.asSequence hs false).bind fun r r' h => ?_
  refine (Rows.wrapIf_related node node' (by rw [h.hasPaging, h.distinct]) h).bind
    fun r r' h => ?_
  refine (Related.lift (argument_agree node node' ha 1)).bind fun m m' hm => ?_
  refine (hm.applyOne hs h.2).bind fun key key' hk => ?_
  refine (Related.lift (Binding.scalars_agree node node' hk)).bind fun l l' hl => .pure ⟨?_, h.2⟩
  have hselect := h.1
  simp only [Select.bare_eq, Select.mk.injEq] at hselect ⊢
  cases restart <;>
    simp [hselect, bareKeys_append, bareKeys_map, hl]

theorem Surroundings.mustPage_agree (he : env.dialect = env'.dialect) :
    Agree Eq (env.mustPage node) (env'.mustPage node') := by
  rw [mustPage, mustPage, he]
  split
  · exact .ok rfl
  · exact .error rfl

theorem callRows_related (he : env.dialect = env'.dialect) (op : Operator)
    (ha : List.Forall₂ (Meaning.Alike env env' σ σ') args args') (hs : SameScope σ σ' s s') :
    Related SameRows (callRows env node op args s) (callRows env' node' op args' s') := by
  refine (Related.lift (argument_agree node node' ha 0)).bind fun source source' hsource => ?_
  have paged := Surroundings.mustPage_agree node node' he
  cases op with
  | filter =>
    refine (hsource.asSequence hs false).bind fun r r' h => ?_
    refine (Related.lift (argument_agree node node' ha 1)).bind fun m m' hm => ?_
    exact restrict_related node node' h hm false hs
  | project =>
    refine (hsource.asSequence hs false).bind fun r r' h => ?_
    refine (Rows.wrapIf_related node node' h.distinct h).bind fun r r' h => ?_
    refine (Related.lift (argument_agree node node' ha 1)).bind fun m m' hm => ?_
    exact (hm.applyOne hs h.2).bind fun row row' hrow => .pure ⟨h.1, hrow⟩
  | orderBy => exact orderRows_related node node' true true ha hs
  | orderByDescending => exact orderRows_related node node' true false ha hs
  | thenBy => exact orderRows_related node node' false true ha hs
  | thenByDescending => exact orderRows_related node node' false false ha hs
  | skip =>
    refine (Related.lift paged).bind fun _ _ _ => ?_
    refine (hsource.asSequence hs false).bind fun r r' h => ?_
    refine (Related.lift (argument_agree node node' ha 1)).bind fun m m' hm => ?_
    refine (hm.asScalar hs).bind fun count count' hc => ?_
    refine (Rows.wrapIf_related node node' h.hasPaging h).bind fun r r' h => ?_
    exact .pure (h.withOffset (congrArg Scalar.expr hc))
  | take =>
    refine (Related.lift paged).bind fun _ _ _ => ?_
    refine (hsource.asSequence hs false).bind fun r r' h => ?_
    refine (Related.lift (argument_agree node node' ha 1)).bind fun m m' hm => ?_
    refine (hm.asScalar hs).bind fun count count' hc => ?_
    refine (Rows.wrapIf_related node node' h.limit h).bind fun r r' h => ?_
    exact .pure (h.withLimit (congrArg Scalar.expr hc))
  | segment =>
    refine (Related.lift paged).bind fun _ _ _ => ?_
    refine (hsource.asSequence hs false).bind fun r r' h => ?_
    refine (Related.lift (argument_agree node node' ha 1)).bind fun m m' hm => ?_
    rw [show env.slot? m.node.id = env'.slot? m'.node.id from congrArg Prod.fst hm.place]
    cases env'.slot? m'.node.id with
    | none => exact .unsupported m.node m'.node _
    | some slot =>
      refine (Rows.wrapIf_related node node' h.hasPaging h).bind fun r r' h => ?_
      exact .pure ((h.withOffset rfl).withLimit rfl)
  | distinct =>
    refine (hsource.asSequence hs false).bind fun r r' h => ?_
    refine (Rows.wrapIf_related node node' h.hasPaging h).bind fun r r' h => ?_
    simp only [h.isGroup]
    split
    · exact .refused node node' _
    · refine .pure ⟨?_, h.2⟩
      have hselect := h.1
      simp only [Select.bare_eq, Select.mk.injEq] at hselect ⊢
      simp only [hselect, and_self]
  | groupBy =>
    refine (hsource.asSequence hs false).bind fun r r' h => ?_
    refine (Rows.wrapForRows_related node node' h).bind fun r r' h => ?_
    refine (Related.lift (argument_agree node node' ha 1)).bind fun m m' hm => ?_
    refine (hm.applyOne hs h.2).bind fun key key' hk => ?_
    have grouped : ∀ element element' : Binding, element.bare = element'.bare → Related SameRows
        (do
          let keys ← liftM (key.scalars node)
          pure ⟨{ r.select with groupBy := keys.map Scalar.expr }, .group key element⟩)
        (do
          let keys ← liftM (key'.scalars node')
          pure ⟨{ r'.select with groupBy := keys.map Scalar.expr }, .group key' element'⟩) := by
      intro element element' hel
      refine (Related.lift (Binding.scalars_agree node node' hk)).bind fun l l' hl => .pure ⟨?_, ?_⟩
      · have hselect := h.1
        have hexpr := congrArg (List.map Scalar.expr) hl
        rw [List.map_map, List.map_map] at hexpr
        simp only [Select.bare_eq, Select.mk.injEq] at hselect ⊢
        simp only [hselect, List.map_map, and_self, and_true, true_and]
        exact hexpr
      · rw [Binding.bare, Binding.bare, hk, hel]
    rcases getElem?_related ha 2 with ⟨h2, h2'⟩ | ⟨m, m', h2, h2', hm⟩ <;> rw [h2, h2']
    · exact grouped _ _ h.2
    · exact (hm.applyOne hs h.2).bind grouped
  | join => exact joinRows_related node node' .inner ha hs
  | leftJoin => exact joinRows_related node node' .left ha hs
  | _ => exact .throw rfl

theorem markerRows_related (he : env.dialect = env'.dialect) (op : Operator)
    (ha : List.Forall₂ (Meaning.Alike env env' σ σ') args args') (hs : SameScope σ σ' s s') :
    Related SameRows (markerRows env node op args s) (markerRows env' node' op args' s') := by
  refine (Related.lift (Surroundings.mustPage_agree node node' he)).bind fun _ _ _ => ?_
  refine (Related.lift (argument_agree node node' ha 0)).bind fun m m' hm => ?_
  refine (hm.asSequence hs _).bind fun r r' h => ?_
  refine (Rows.wrapIf_related node node' h.hasPaging h).bind fun r r' h => ?_
  refine (Related.modify _).bind fun _ _ _ => ?_
  exact .pure (((h.withLimit rfl).withOffset rfl).withOrigin node node')

theorem sequenceOfCall_related (he : env.dialect = env'.dialect) (op : Operator)
    (hk : node.skeletonIn σ = node'.skeletonIn σ') (hp : env.place node = env'.place node')
    (ha : List.Forall₂ (Meaning.Alike env env' σ σ') args args') (hs : SameScope σ σ' s s')
    (inRun : Bool) : Related SameRows (sequenceOfCall env node op args inRun s)
      (sequenceOfCall env' node' op args' inRun s') := by
  have hstep : node.isPagingStep = node'.isPagingStep := by
    rw [Expr.isPagingStep_eq σ, Expr.isPagingStep_eq σ', hk]
  have hmarker : env.marker = some node.id ↔ env'.marker = some node'.id := by
    exact decide_eq_decide.1 (congrArg Prod.snd hp)
  simp only [sequenceOfCall, hstep, hmarker]
  split
  · exact (Related.lift (argument_agree node node' ha 0)).bind fun m m' hm =>
      hm.asSequence hs true
  · split
    · exact markerRows_related node node' he op ha hs
    · exact (callRows_related node node' he op ha hs).bind fun r r' h =>
        .pure (h.withOrigin node node')

end Functions

end SequenceQuery
