import SequenceQuery.Proofs.OriginErasure

namespace SequenceQuery

variable {α β γ δ : Type}

inductive Agree (R : α → β → Prop) : Except Failure α → Except Failure β → Prop
  | ok {a : α} {b : β} (h : R a b) : Agree R (.ok a) (.ok b)
  | error {f g : Failure} (h : f.cause = g.cause) : Agree R (.error f) (.error g)

namespace Agree

theorem bind {R : α → β → Prop} {S : γ → δ → Prop} {x : Except Failure α} {y : Except Failure β}
    {f : α → Except Failure γ} {g : β → Except Failure δ} (h : Agree R x y)
    (hf : ∀ a b, R a b → Agree S (f a) (g b)) : Agree S (x >>= f) (y >>= g) := by
  cases h with
  | ok h => exact hf _ _ h
  | error h => exact .error h

theorem unsupported {R : α → β → Prop} (node node' : Expr) (reason : Unsupported) :
    Agree R (unsupported node reason) (unsupported node' reason) :=
  .error rfl

end Agree

def Related (R : α → β → Prop) (x : Build α) (y : Build β) : Prop :=
  ∀ p, Agree (fun a b => R a.1 b.1 ∧ a.2 = b.2) (x.run p) (y.run p)

namespace Related

variable {R : α → β → Prop} {S : γ → δ → Prop} {x : Build α} {y : Build β}

theorem pure {a : α} {b : β} (h : R a b) : Related R (pure a) (pure b) :=
  fun _ => .ok ⟨h, rfl⟩

theorem bind {f : α → Build γ} {g : β → Build δ} (h : Related R x y)
    (hf : ∀ a b, R a b → Related S (f a) (g b)) : Related S (x >>= f) (y >>= g) := by
  intro p
  refine (h p).bind ?_
  rintro ⟨a, q⟩ ⟨b, q'⟩ ⟨hab, rfl⟩
  exact hf a b hab q

theorem lift {x : Except Failure α} {y : Except Failure β} (h : Agree R x y) :
    Related R (liftM x) (liftM y) := by
  intro p
  cases h with
  | ok h => exact .ok ⟨h, rfl⟩
  | error h => exact .error h

theorem throw {f g : Failure} (h : f.cause = g.cause) :
    Related R (throw f : Build α) (throw g : Build β) :=
  fun _ => .error h

theorem unsupported (node node' : Expr) (reason : Unsupported) :
    Related R (liftM (unsupported node reason : Except Failure α))
      (liftM (SequenceQuery.unsupported node' reason : Except Failure β)) :=
  .lift (.unsupported node node' reason)

theorem refused (node node' : Expr) (reason : Unsupported) {f : α → Build γ} {g : β → Build δ} :
    Related S (liftM (SequenceQuery.unsupported node reason : Except Failure α) >>= f)
      (liftM (SequenceQuery.unsupported node' reason : Except Failure β) >>= g) :=
  fun _ => .error rfl

theorem freshLabel : Related Eq freshLabel freshLabel := fun _ => .ok ⟨rfl, rfl⟩

theorem modify (f : Progress → Progress) :
    Related Eq (modify f : Build PUnit) (modify f : Build PUnit) :=
  fun _ => .ok ⟨rfl, rfl⟩

end Related

/-- Rows whose statements and elements differ at most in where they come from. -/
def SameRows (r r' : Rows) : Prop := r.select.bare = r'.select.bare ∧ r.row.bare = r'.row.bare

section Bindings

variable {b b' : Binding} (node node' : Expr)

theorem Binding.leaves_agree (h : b.bare = b'.bare) :
    Agree (fun l l' => l.map Leaf.bare = l'.map Leaf.bare) (b.leaves node) (b'.leaves node') := by
  have hl : (b.leaves? "").map (List.map Leaf.bare) = (b'.leaves? "").map (List.map Leaf.bare) := by
    rw [← Binding.leaves?_bare, ← Binding.leaves?_bare, h]
  rw [Binding.leaves, Binding.leaves]
  revert hl
  cases b.leaves? "" <;> cases b'.leaves? "" <;> intro hl
  · exact .unsupported ..
  · simp at hl
  · simp at hl
  · exact .ok (by simpa using hl)

theorem Binding.scalars_agree (h : b.bare = b'.bare) :
    Agree (fun s s' => s.map Scalar.bare = s'.map Scalar.bare) (b.scalars node)
      (b'.scalars node') := by
  refine (leaves_agree node node' h).bind fun l l' hl => .ok ?_
  have hs := congrArg (List.map Leaf.scalar) hl
  rw [List.map_map, List.map_map] at hs ⊢
  exact hs

theorem Binding.columns_agree (h : b.bare = b'.bare) :
    Agree (fun l l' => l.map Leaf.bare = l'.map Leaf.bare) (b.columns node) (b'.columns node') := by
  refine (leaves_agree node node' h).bind fun l l' hl => ?_
  have hn : l.map Leaf.name = l'.map Leaf.name := by
    have := congrArg (List.map Leaf.name) hl
    rwa [List.map_map, List.map_map] at this
  rw [hn]
  cases firstRepeated? [] (l'.map Leaf.name) with
  | some name => exact .unsupported ..
  | none => exact .ok hl

theorem Binding.asScalar_agree (h : b.bare = b'.bare) :
    Agree (fun s s' => s.bare = s'.bare) (b.asScalar node) (b'.asScalar node') := by
  cases b <;> cases b' <;> simp only [Binding.bare, reduceCtorEq, Binding.scalar.injEq,
    Binding.record.injEq] at h
  · rw [h.2.1]
    exact .unsupported ..
  · exact .unsupported ..
  · exact .ok h
  · exact .unsupported ..

theorem find?_bareFields (name : String) (fields : List (String × Binding)) :
    Text.findNamed? Prod.fst name (Binding.bareFields fields) =
      (Text.findNamed? Prod.fst name fields).map fun f => (f.1, f.2.bare) := by
  simp only [Text.findNamed?, Binding.bareFields_eq_map, List.find?_map, Option.map_or]
  rfl

theorem Binding.member_agree (name : String) (h : b.bare = b'.bare) :
    Agree (fun c c' => c.bare = c'.bare) (b.member name node) (b'.member name node') := by
  cases b <;> cases b' <;> simp only [Binding.bare, reduceCtorEq, Binding.record.injEq,
    Binding.object.injEq, Binding.group.injEq] at h
  case record.record label entity columnPrefix optional _ _ _ _ =>
    obtain ⟨rfl, rfl, rfl, rfl⟩ := h
    simp only [Binding.member]
    cases entity.find? name with
    | some p => exact .ok rfl
    | none => exact .error rfl
  case object.object fields fields' =>
    have hf := congrArg (Text.findNamed? Prod.fst name) h
    rw [find?_bareFields, find?_bareFields] at hf
    simp only [Binding.member]
    revert hf
    cases Text.findNamed? Prod.fst name fields <;>
      cases Text.findNamed? Prod.fst name fields' <;> intro hf
    · exact .error rfl
    · simp at hf
    · simp at hf
    · exact .ok (by simpa using (Prod.mk.inj (Option.some.inj hf)).2)
  case scalar.scalar => exact .error rfl
  case group.group =>
    simp only [Binding.member]
    split
    · exact .ok h.1
    · exact .error rfl

end Bindings

section Rows

variable {r r' : Rows} (node node' : Expr)

theorem Rows.items_bare (leaves : List Leaf) :
    bareItems (items leaves) = items (leaves.map Leaf.bare) := by
  have item_bare : ∀ (e : SqlExpr) (name : String) (rest : List SelectItem),
      bareItems (item e name :: rest) = item e.bare name :: bareItems rest := by
    intro e name rest
    cases e <;> rfl
  induction leaves with
  | nil => rfl
  | cons l leaves ih => exact (item_bare l.scalar.expr l.name _).trans (congrArg _ ih)

theorem Rows.project_agree (h : SameRows r r') :
    Agree (fun s s' => s.bare = s'.bare) (r.project node) (r'.project node') := by
  obtain ⟨hs, hrow⟩ := h
  refine (Binding.columns_agree node node' hrow).bind fun l l' hl => .ok ?_
  simp only [Select.bare_eq, Select.mk.injEq] at hs ⊢
  simp only [hs, Rows.items_bare, hl, and_self]

theorem Rows.wrap_related (h : SameRows r r') :
    Related SameRows (r.wrap node) (r'.wrap node') := by
  refine (Related.lift (project_agree node node' h)).bind fun s s' hs => ?_
  refine Related.freshLabel.bind fun label _ hlabel => ?_
  subst hlabel
  have derived : ∀ (q : Select) (n : Expr),
      ({ Select.ofTable (.subquery q label) with origin := some n } : Select).bare =
        Select.ofTable (.subquery q.bare label) := fun _ _ => rfl
  refine .pure ⟨?_, ?_⟩
  · rw [derived, derived, hs]
  · rw [Binding.readFrom_bare, Binding.readFrom_bare, h.2]

theorem Rows.wrapIf_related {c c' : Bool} (hc : c = c') (h : SameRows r r') :
    Related SameRows (r.wrapIf c node) (r'.wrapIf c' node') := by
  subst hc
  cases c with
  | true => exact wrap_related node node' h
  | false => exact .pure h

theorem SameRows.hasPaging (h : SameRows r r') : r.select.hasPaging = r'.select.hasPaging := by
  rw [← Select.hasPaging_bare, h.1, Select.hasPaging_bare]

theorem SameRows.hasGroups (h : SameRows r r') : r.select.hasGroups = r'.select.hasGroups := by
  rw [← Select.hasGroups_bare, h.1, Select.hasGroups_bare]

theorem SameRows.isBareTable (h : SameRows r r') :
    r.select.isBareTable = r'.select.isBareTable := by
  rw [← Select.isBareTable_bare, h.1, Select.isBareTable_bare]

theorem SameRows.distinct (h : SameRows r r') : r.select.distinct = r'.select.distinct := by
  have := congrArg Select.distinct h.1
  rwa [Select.bare_eq, Select.bare_eq] at this

theorem SameRows.limit (h : SameRows r r') : r.select.limit.isSome = r'.select.limit.isSome := by
  have := congrArg (fun s => s.limit.isSome) h.1
  simpa [Select.bare_eq] using this

theorem SameRows.isGroup (h : SameRows r r') : r.row.isGroup = r'.row.isGroup := by
  rw [← Binding.isGroup_bare, h.2, Binding.isGroup_bare]

theorem Rows.wrapForRows_related (h : SameRows r r') : Related SameRows
    (r.wrapIf (r.select.hasPaging || r.select.distinct || r.select.hasGroups) node)
    (r'.wrapIf (r'.select.hasPaging || r'.select.distinct || r'.select.hasGroups) node') :=
  wrapIf_related node node' (by rw [h.hasPaging, h.distinct, h.hasGroups]) h

theorem Rows.forAggregate_related (h : SameRows r r') :
    Related SameRows (r.forAggregate node) (r'.forAggregate node') := by
  simp only [Rows.forAggregate, h.isGroup]
  split
  · exact .refused node node' _
  · refine (wrapForRows_related node node' h).bind fun r r' h => .pure ⟨?_, h.2⟩
    have hs := h.1
    simp only [Select.bare_eq, Select.mk.injEq] at hs ⊢
    simp only [hs, and_self]

theorem SameRows.withLimit (h : SameRows r r') {e e' : SqlExpr} (he : e.bare = e'.bare) :
    SameRows (r.withLimit e) (r'.withLimit e') := by
  refine ⟨?_, h.2⟩
  have hs := h.1
  simp only [Rows.withLimit, Select.bare_eq, Select.mk.injEq] at hs ⊢
  simp only [hs, Option.map_some, he, and_self]

theorem SameRows.withOffset (h : SameRows r r') {e e' : SqlExpr} (he : e.bare = e'.bare) :
    SameRows (r.withOffset e) (r'.withOffset e') := by
  refine ⟨?_, h.2⟩
  have hs := h.1
  simp only [Rows.withOffset, Select.bare_eq, Select.mk.injEq] at hs ⊢
  simp only [hs, Option.map_some, he, and_self]

theorem SameRows.withOrigin (h : SameRows r r') :
    SameRows (r.withOrigin node) (r'.withOrigin node') := by
  refine ⟨?_, h.2⟩
  have hs := h.1
  simp only [Rows.withOrigin, Select.bare_eq, Select.mk.injEq] at hs ⊢
  simp only [hs, and_self]

theorem SameRows.orderedOnlyIfPaged (h : SameRows r r') :
    SameRows r.orderedOnlyIfPaged r'.orderedOnlyIfPaged := by
  simp only [Rows.orderedOnlyIfPaged, h.hasPaging]
  split
  · exact h
  · refine ⟨?_, h.2⟩
    have hs := h.1
    simp only [Select.bare_eq, Select.mk.injEq] at hs ⊢
    simp only [hs, and_self]

theorem SameRows.selecting (h : SameRows r r') {e e' : SqlExpr} (he : e.bare = e'.bare) :
    (r.selecting e).bare = (r'.selecting e').bare := by
  have hs := h.1
  simp only [Rows.selecting, Select.bare_eq, Select.mk.injEq] at hs ⊢
  simp only [hs, bareItems, he, and_self]

end Rows

end SequenceQuery
