import SequenceQuery.Provider.Basic
import SequenceQuery.Proofs.Fingerprint
import SequenceQuery.Proofs.Simulation

namespace SequenceQuery

namespace Expr

theorem call_of_skeletonIn {σ : List String} {e : Expr} {op : Operator} {ks : List Skeleton}
    (h : e.skeletonIn σ = .call op ks) :
    ∃ i args, e = .call i op args ∧ skeletonsIn σ args = ks := by
  cases e with
  | call i _ args =>
    obtain ⟨rfl, hargs⟩ := Skeleton.call.inj h
    exact ⟨i, args, rfl, hargs⟩
  | param => exact absurd h.symm (ne_skeletonIn_param nofun nofun)
  | _ => cases h

theorem length_constants {e e' : Expr} (h : e.skeleton = e'.skeleton) :
    e.constants.length = e'.constants.length := by
  have widths : ∀ e : Expr, e.constants.length = (e.skeleton.marks.map Prod.fst).sum := by
    intro e
    rw [skeleton, ← marks_eq, List.map_map, constants, List.length_flatMap]
    rfl
  rw [widths, widths, h]

theorem isSome_segment? {e e' : Expr} (h : e.skeleton = e'.skeleton) :
    e.segment?.isSome = e'.segment?.isSome := by
  have flags : ∀ e : Expr, e.segment?.isSome = (e.skeleton.marks.map Prod.snd).any fun f => f := by
    intro e
    rw [skeleton, ← marks_eq, List.map_map, List.any_map, segment?, Option.isSome_map,
      marker?_eq_findSome?]
    induction e.nodes with
    | nil => rfl
    | cons n ns ih =>
      rw [findSome?_cons_eq_or, Option.isSome_or, ih]
      rfl
  rw [flags, flags, h]

end Expr

section Root

variable {env env' : Surroundings} {e e' : Expr}

theorem existence_bare (hd : env.dialect = env'.dialect) {s s' : Select} (h : s.bare = s'.bare)
    (negated : Bool) :
    (existence env s negated e).bare = (existence env' s' negated e').bare := by
  rw [existence, existence, hd]
  split <;> simp only [Select.ofItem, Select.bare, bareItems, SqlExpr.bare, bareArms, bareOption, h]

theorem Terminal.atRoot_bare (hd : env.dialect = env'.dialect) {t t' : Terminal}
    (h : t.bare = t'.bare) : (t.atRoot env e).1.bare = (t'.atRoot env' e').1.bare ∧
      (t.atRoot env e).2 = (t'.atRoot env' e').2 := by
  cases t <;> cases t' <;> simp only [Terminal.bare, reduceCtorEq, Terminal.single.injEq,
    Terminal.exist.injEq, Terminal.scalar.injEq, Terminal.isIn.injEq] at h
  case single.single =>
    obtain ⟨hs, -, rfl, rfl⟩ := h
    exact ⟨hs, rfl⟩
  case exist.exist =>
    obtain ⟨hs, rfl⟩ := h
    exact ⟨existence_bare hd hs _, rfl⟩
  case scalar.scalar =>
    obtain ⟨hs, rfl⟩ := h
    exact ⟨hs, rfl⟩
  case isIn.isIn =>
    refine ⟨?_, rfl⟩
    simp only [atRoot, Select.ofItem, SqlExpr.coalesce, Select.bare, bareItems, SqlExpr.bare,
      bareList, h]

theorem sequenceAtRoot_related
    (h : Meaning.Alike env env' [] [] (e.meaning env) (e'.meaning env')) :
    Related (fun a a' => a.1.bare = a'.1.bare ∧ a.2 = a'.2) (sequenceAtRoot env e)
      (sequenceAtRoot env' e') := by
  refine (h.asSequence ⟨rfl, rfl, rfl⟩ false).bind fun r r' hr => ?_
  exact (Related.lift (Rows.project_agree e e' hr)).bind fun s s' hs => .pure ⟨hs, rfl⟩

theorem atRoot_related (hc : env.catalog = env'.catalog) (hd : env.dialect = env'.dialect)
    (hk : e.skeleton = e'.skeleton) (hp : e.nodes.map env.place = e'.nodes.map env'.place) :
    Related (fun a a' => a.1.bare = a'.1.bare ∧ a.2 = a'.2) (atRoot env e) (atRoot env' e') := by
  have sequence := sequenceAtRoot_related (meaning_alike hc hd [] [] e e' hk hp)
  by_cases hcall : ∃ i op args, e = .call i op args
  · obtain ⟨i, op, args, rfl⟩ := hcall
    obtain ⟨i', args', rfl, hargs⟩ := Expr.call_of_skeletonIn hk.symm
    simp only [Expr.nodes, List.map_cons] at hp
    have ha := meanings_alike hc hd [] [] args args' hargs.symm (List.cons.inj hp).2
    rw [atRoot, atRoot]
    split
    · exact (terminal_related _ _ op ha ⟨rfl, rfl, rfl⟩).bind fun t t' ht =>
        .pure (Terminal.atRoot_bare hd ht)
    · exact sequence
  · have asSequence : ∀ (env : Surroundings) (e : Expr), (¬∃ i op args, e = .call i op args) →
        atRoot env e = sequenceAtRoot env e := by
      intro env e h
      cases e with
      | call i op args => exact absurd ⟨i, op, args, rfl⟩ h
      | _ => rfl
    rw [asSequence env e hcall, asSequence env' e' ?_]
    · exact sequence
    · rintro ⟨i, op, args, rfl⟩
      obtain ⟨i, args, rfl, -⟩ := Expr.call_of_skeletonIn hk
      exact hcall ⟨i, op, args, rfl⟩

end Root

namespace Form

/-- Forms that differ at most in where their parts come from and in the segment asked for. -/
structure Same (f f' : Form) : Prop where
  select : f.select.bare = f'.select.bare
  shape : f.shape = f'.shape
  slotCount : f.slotCount = f'.slotCount
  hasSegment : f.hasSegment = f'.hasSegment

inductive SameOutcome : Except FormError Form → Except FormError Form → Prop
  | ok {f f' : Form} (h : f.Same f') : SameOutcome (.ok f) (.ok f')
  | error {x x' : FormError} (h : x.cause = x'.cause) : SameOutcome (.error x) (.error x')

theorem ofExpr_sameOutcome (catalog : Catalog) (dialect : Dialect) {e e' : Expr}
    (hk : e.skeleton = e'.skeleton) (hl : e.layout = e'.layout) :
    SameOutcome (ofExpr catalog dialect e) (ofExpr catalog dialect e') := by
  have related : Related (fun a a' => a.1.bare = a'.1.bare ∧ a.2 = a'.2)
      (atRoot (.ofExpr catalog dialect e) e) (atRoot (.ofExpr catalog dialect e') e') :=
    atRoot_related rfl rfl hk hl
  have h := related ⟨0, false⟩
  rw [ofExpr, ofExpr]
  revert h
  cases (atRoot (.ofExpr catalog dialect e) e).run ⟨0, false⟩ <;>
    cases (atRoot (.ofExpr catalog dialect e') e').run ⟨0, false⟩ <;> intro h
  case error.error =>
    obtain ⟨h⟩ | ⟨h⟩ := h
    exact .error h
  case ok.ok a a' =>
    obtain ⟨⟨select, shape⟩, progress⟩ := a
    obtain ⟨⟨select', shape'⟩, progress'⟩ := a'
    obtain ⟨⟨hselect, hshape⟩, hprogress⟩ | ⟨h⟩ := h
    refine .ok ⟨hselect, hshape, Expr.length_constants hk, ?_⟩
    simp only [hasSegment] at hprogress ⊢
    rw [hprogress]
    split
    · exact Expr.isSome_segment? hk
    · rfl
  all_goals cases h

end Form

namespace Arguments

def SameSupply (a a' : Arguments) : Prop :=
  a.constants.length = a'.constants.length ∧ a.segment.isSome = a'.segment.isSome

theorem SameSupply.resolve {a a' : Arguments} (h : a.SameSupply a') (s : Source) :
    (∃ v v', a.resolve s = .ok v ∧ a'.resolve s = .ok v') ∨
      ∃ x, a.resolve s = .error x ∧ a'.resolve s = .error x := by
  obtain ⟨hconstants, hsegment⟩ := h
  cases s with
  | slot i =>
    rw [Arguments.resolve, Arguments.resolve]
    by_cases hi : i < a.constants.length
    · have hi' : i < a'.constants.length := hconstants ▸ hi
      rw [List.getElem?_eq_getElem hi, List.getElem?_eq_getElem hi']
      exact .inl ⟨_, _, rfl, rfl⟩
    · rw [List.getElem?_eq_none (by omega), List.getElem?_eq_none (by omega)]
      exact .inr ⟨_, rfl, rfl⟩
  | segmentStart | segmentLength =>
    rw [Arguments.resolve, Arguments.resolve]
    cases hs : a.segment <;> cases hs' : a'.segment <;> simp [hs, hs'] at hsegment ⊢

end Arguments

namespace Postgres

theorem mapM_sources {f g : Source → Except DialectError BoundParameter}
    (h : ∀ s, (f s).map BoundParameter.source = (g s).map BoundParameter.source)
    (sources : List Source) : (sources.mapM f).map (List.map BoundParameter.source) =
      (sources.mapM g).map (List.map BoundParameter.source) := by
  induction sources with
  | nil => rfl
  | cons s sources ih =>
    have hs := h s
    rw [List.mapM_cons, List.mapM_cons]
    cases hf : f s <;> cases hg : g s <;> rw [hf, hg] at hs
    case error.error => exact congrArg Except.error (Except.error.inj hs)
    case ok.ok p q =>
      revert ih
      cases sources.mapM f <;> cases sources.mapM g <;> intro ih
      case error.error => exact congrArg Except.error (Except.error.inj ih)
      case ok.ok ps qs =>
        have hp : p.source = q.source := Except.ok.inj hs
        have hps : ps.map BoundParameter.source = qs.map BoundParameter.source := Except.ok.inj ih
        show Except.ok ((p :: ps).map BoundParameter.source) = _
        rw [List.map_cons, hp, hps]
        rfl
      all_goals cases ih
    all_goals cases hs

/-- The text of a command and the sources of its parameters do not depend on the values. -/
theorem render_sameSupply {a a' : Arguments} (h : a.SameSupply a') (options : RenderOptions)
    {s s' : Select} (hs : s.bare = s'.bare) :
    (render options a s).map CommandTemplate.ofRendered =
      (render options a' s').map CommandTemplate.ofRendered := by
  rw [← render_bare, hs, render_bare]
  have template : ∀ a : Arguments, (render options a s').map CommandTemplate.ofRendered =
      ((boundParameters a (sourcesOf s'.tokens)).map (List.map BoundParameter.source)).map
        (CommandTemplate.mk (String.join (s'.tokens.map
          (tokenText options.quoteIdentifiers (sourcesOf s'.tokens))))) := by
    intro a
    rw [render]
    cases boundParameters a (sourcesOf s'.tokens) <;> rfl
  rw [template, template, boundParameters, boundParameters]
  refine congrArg _ (mapM_sources (fun s => ?_) _)
  rcases h.resolve s with ⟨v, v', hv, hv'⟩ | ⟨x, hx, hx'⟩
  · rw [hv, hv']
    rfl
  · rw [hx, hx']

end Postgres

namespace Form

open Setting

/-- The values of constants and segments and the names of parameters do not reach the command:
queries of one fingerprint in which no node is shared fail for one cause, or their forms are the
same and are written as the same text with the same sources of parameters. -/
theorem ofExpr_free_of_values (catalog : Catalog) (dialect : Dialect) {e e' : Expr}
    (he : e.Unshared) (he' : e'.Unshared) (h : Fingerprint.ofExpr e = Fingerprint.ofExpr e') :
    match ofExpr catalog dialect e, ofExpr catalog dialect e' with
    | .ok f, .ok f' =>
      f.Same f' ∧ (ownArguments e f).SameSupply (ownArguments e' f') ∧
        ∀ (options : RenderOptions) (a a' : Arguments), a.SameSupply a' →
          (Postgres.render options a f.select).map CommandTemplate.ofRendered =
            (Postgres.render options a' f'.select).map CommandTemplate.ofRendered
    | .error x, .error x' => x.cause = x'.cause
    | _, _ => False := by
  have hk : e.skeleton = e'.skeleton :=
    Expr.skeleton_eq_of_shape (congrArg Fingerprint.shape h)
  have hl := Expr.layout_eq_of_skeleton he he' hk
  have same := ofExpr_sameOutcome catalog dialect hk hl
  revert same
  cases ofExpr catalog dialect e <;> cases ofExpr catalog dialect e' <;> rintro (⟨same⟩ | ⟨same⟩)
  · exact same
  · refine ⟨same, ⟨Expr.length_constants hk, same.hasSegment⟩, fun options a a' ha => ?_⟩
    exact Postgres.render_sameSupply ha options same.select

def peopleAbove (param : String) (age : Int64) (segment : Segment) : Expr :=
  .call 0 .segment
    [.call 1 .filter
      [.entity 2 "Person",
        .lambda 3 [param]
          (.binary 4 .greaterThan (.member 5 (.param 6 param) "Age") (.const 7 (.int age)))],
      .segment 8 segment]

def people : Catalog := ⟨[⟨"Person", "people", none, [⟨"Age", "age", .int, false, false⟩]⟩]⟩

theorem ofExpr_free_of_values_peopleAbove :
    ∃ f f', ofExpr people (Postgres.dialect false) (peopleAbove "p" 18 (.bounded 0 10)) = .ok f ∧
      ofExpr people (Postgres.dialect false) (peopleAbove "q" 65 (.unbounded 20)) = .ok f' ∧
        f.Same f' := by
  have h : Fingerprint.ofExpr (peopleAbove "p" 18 (.bounded 0 10)) =
      Fingerprint.ofExpr (peopleAbove "q" 65 (.unbounded 20)) := by
    have hshape : (peopleAbove "p" 18 (.bounded 0 10)).shape =
        (peopleAbove "q" 65 (.unbounded 20)).shape := by decide
    rw [Fingerprint.ofExpr, hshape]
    rfl
  have same := ofExpr_free_of_values people (Postgres.dialect false) (by decide) (by decide) h
  exact ⟨_, _, rfl, rfl, same.1⟩

end Form

end SequenceQuery
