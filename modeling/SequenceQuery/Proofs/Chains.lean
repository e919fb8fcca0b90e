import SequenceQuery.Proofs.Climbing

namespace SequenceQuery

namespace Phrase

def top? : Phrase → Option SqlBinary
  | .binary op _ _ => some op
  | _ => none

/-- The operators of a strength along the left edge, from the innermost on. -/
def spine (strength : Nat) : Phrase → List SqlBinary
  | .binary op left _ => if op.precedence = strength then left.spine strength ++ [op] else []
  | _ => []

def run (op : SqlBinary) : Phrase → Nat
  | .binary op' left _ => if op' = op then left.run op + 1 else 0
  | _ => 0

/-- How many operators of the phrase go behind others when it is regrouped to their right. -/
def joined (op : SqlBinary) (right : Phrase) : Nat :=
  if op.isAssociative then right.run op else 0

section

variable {op : SqlBinary} {left left' right right' : Phrase}

theorem run_le_length_spine (op : SqlBinary) : ∀ p : Phrase,
    p.run op ≤ (p.spine op.precedence).length
  | .binary op' left _ => by
    by_cases h : op' = op
    · have hleft := run_le_length_spine op left
      simpa [run, spine, h] using hleft
    · simp [run, h]
  | .leaf _ | .node .. => Nat.zero_le _

theorem joined_le (op : SqlBinary) (p : Phrase) :
    joined op p ≤ (p.spine op.precedence).length := by
  rw [joined]
  split
  · exact run_le_length_spine op p
  · exact Nat.zero_le _

theorem spine_attach (op : SqlBinary) (left : Phrase) : ∀ right : Phrase,
    (attach op left right).spine op.precedence =
      left.spine op.precedence ++ List.replicate (right.run op + 1) op
  | .binary op' a b => by
    by_cases h : op' = op
    · rw [attach, if_pos h, spine, if_pos rfl, spine_attach op left a, run, if_pos h,
        List.replicate_succ' (n := a.run op + 1), List.append_assoc]
    · simp [attach, run, spine, h]
  | .leaf _ | .node .. => by simp [attach, run, spine]

theorem spine_combine (op : SqlBinary) (left right : Phrase) :
    (combine op left right).spine op.precedence =
      left.spine op.precedence ++ List.replicate (joined op right + 1) op := by
  rw [combine, joined]
  split
  · exact spine_attach op left right
  · simp [spine]

theorem top?_combine (op : SqlBinary) (left right : Phrase) :
    (combine op left right).top? = some op := by
  rw [combine]
  split
  · cases right with
    | binary op' a b =>
      rw [attach]
      split <;> rfl
    | _ => rfl
  · rfl

theorem spine_of_top?_ne {strength : Nat} {p : Phrase}
    (h : ∀ op ∈ p.top?, op.precedence ≠ strength) : p.spine strength = [] := by
  cases p with
  | binary op => exact if_neg (h op rfl)
  | _ => rfl

theorem joined_of_top?_ne (h : op.isAssociative → right.top? ≠ some op) :
    joined op right = 0 := by
  rw [joined]
  split
  case isTrue hassoc =>
    cases right with
    | binary op' => exact if_neg fun hop => h hassoc (congrArg some hop)
    | _ => rfl
  case isFalse => rfl

theorem attach_of_run_eq_zero (h : right.run op = 0) :
    attach op left right = .binary op left right := by
  cases right with
  | binary op' a b =>
    have hop : op' ≠ op := by
      rintro rfl
      simp [run] at h
    rw [attach, if_neg hop]
  | _ => rfl

theorem eq_binary_of_run {k : Nat} (h : right.run op = k + 1) :
    ∃ a b, right = .binary op a b ∧ a.run op = k := by
  cases right with
  | binary op' a b =>
    by_cases hop : op' = op
    · subst hop
      exact ⟨a, b, rfl, by simpa [run] using h⟩
    · simp [run, hop] at h
  | _ => cases h

theorem attach_inj {k : Nat} (h : attach op left right = attach op left' right')
    (hrun : right.run op = k) (hrun' : right'.run op = k) : left = left' ∧ right = right' := by
  -- `attach` goes down the left edge for as long as the operator stands there.
  induction k generalizing right right' with
  | zero =>
    rw [attach_of_run_eq_zero hrun, attach_of_run_eq_zero hrun'] at h
    simpa using h
  | succ k ih =>
    obtain ⟨a, b, rfl, ha⟩ := eq_binary_of_run hrun
    obtain ⟨a', b', rfl, ha'⟩ := eq_binary_of_run hrun'
    simp only [attach, if_true, binary.injEq, true_and] at h
    obtain ⟨rfl, rfl⟩ := ih h.1 ha ha'
    exact ⟨rfl, by rw [h.2]⟩

/-- Two phrases that are regrouped alike are the same on either side, if their left sides have
equally many operators. -/
theorem combine_inj (h : combine op left right = combine op left' right')
    (hleft : (left.spine op.precedence).length = (left'.spine op.precedence).length) :
    left = left' ∧ right = right' := by
  have hspine := congrArg (fun p => (p.spine op.precedence).length) h
  simp only [spine_combine, List.length_append, List.length_replicate, joined] at hspine
  by_cases hop : op.isAssociative
  · simp only [hop, if_true] at hspine
    simp only [combine, hop, if_true] at h
    exact attach_inj h rfl (by omega)
  · simpa [combine, hop] using h

end

namespace Chain

variable {op : SqlBinary} {strength : Nat} {c d : Chain}

def IsFlat (strength : Nat) (c : Chain) : Prop :=
  ∀ link ∈ c.links, link.1.precedence = strength ∧ joined link.1 link.2.regrouped = 0

theorem IsFlat.single (strength : Nat) (p : Phrase) : IsFlat strength ⟨p, []⟩ :=
  List.forall_mem_nil _

theorem IsFlat.append (hc : c.IsFlat op.precedence) (hd : d.IsFlat op.precedence)
    (hfirst : joined op d.first.regrouped = 0) : (append op c d).IsFlat op.precedence := by
  intro link hlink
  simp only [Chain.append, List.mem_append, List.mem_cons] at hlink
  obtain hleft | rfl | hright := hlink
  · exact hc link hleft
  · exact ⟨rfl, hfirst⟩
  · exact hd link hright

theorem IsFlat.spine_phrase {links : List (SqlBinary × Phrase)} (first : Phrase)
    (h : IsFlat strength ⟨first, links⟩) :
    (Chain.phrase ⟨first, links⟩).regrouped.spine strength =
      first.regrouped.spine strength ++ links.map Prod.fst := by
  induction links generalizing first with
  | nil => exact (List.append_nil _).symm
  | cons link links ih =>
    obtain ⟨⟨rfl, hright⟩, hlinks⟩ := List.forall_mem_cons.1 h
    have hrest := ih (.binary link.1 first link.2) hlinks
    rw [regrouped, spine_combine, hright, List.append_assoc] at hrest
    exact hrest

theorem top?_phrase (links : List (SqlBinary × Phrase)) (first : Phrase) :
    (Chain.phrase ⟨first, links⟩).regrouped.top? =
      (links.getLast?.map Prod.fst).or first.regrouped.top? := by
  induction links generalizing first with
  | nil => rfl
  | cons link links ih =>
    have hrest := ih (.binary link.1 first link.2)
    rw [regrouped, top?_combine] at hrest
    rw [List.getLast?_cons]
    refine hrest.trans ?_
    cases links.getLast? <;> rfl

/-- Behind an operator that all of the chain is of, it does not matter that the chain is read from
the left. -/
theorem regrouped_onto {links : List (SqlBinary × Phrase)} (first left : Phrase)
    (hlinks : ∀ link ∈ links, link.1 = op) (hop : links ≠ [] → op.isAssociative) :
    (Chain.onto op left ⟨first, links⟩).regrouped =
      combine op left.regrouped (Chain.phrase ⟨first, links⟩).regrouped := by
  induction links generalizing first left with
  | nil => rfl
  | cons link links ih =>
    obtain ⟨hlink, hlinks⟩ := List.forall_mem_cons.1 hlinks
    have hassoc := hop (List.cons_ne_nil _ _)
    -- The rest of the chain is read once behind `left op first` and once behind `first` alone.
    have hboth := ih link.2 (.binary op left first) hlinks fun _ => hassoc
    have hinner := ih link.2 first hlinks fun _ => hassoc
    rw [regrouped, combine_combine hassoc, ← hinner] at hboth
    rw [← hlink] at hboth ⊢
    exact hboth

end Chain

end Phrase

namespace SqlExpr

open Phrase

def top? : SqlExpr → Option SqlBinary
  | .binary op .. => some op
  | _ => none

/-- Wherever a chain of operators goes on to the right of one, all of it is of that operator. -/
def keepsChains : SqlExpr → Bool
  | .binary op left right =>
    left.keepsChains && right.keepsChains &&
      (right.chainIn op.precedence (right.bindsLooser op true)).links.all fun link => link.1 = op
  | _ => true

variable {e l r : SqlExpr} {op : SqlBinary} {strength : Nat} {p : Phrase}

theorem precedence_of_top? (h : e.top? = some op) : e.strength = op.precedence := by
  cases e with
  | binary op' =>
    obtain rfl := Option.some.inj h
    rfl
  | _ => cases h

/-- To the left, what is as strong as the operator needs no parentheses. -/
theorem bindsLooser_left (h : l.strength = op.precedence) : l.bindsLooser op false = false := by
  cases l with
  | binary op' =>
    have hle : op.precedence ≤ op'.precedence := Nat.le_of_eq h.symm
    simpa [bindsLooser] using hle
  | unary => exact absurd h.symm (Nat.ne_of_lt (precedence_lt op))
  | _ => rfl

theorem chainIn_left (op : SqlBinary) (l : SqlExpr) :
    l.chainIn op.precedence (l.bindsLooser op false) =
      if l.strength = op.precedence then l.chain else l.chain.closed := by
  by_cases h : l.strength = op.precedence
  · rw [chainIn, if_pos ⟨bindsLooser_left h, h⟩, if_pos h]
  · rw [chainIn, if_neg fun hin => h hin.2, if_neg h]

theorem top?_of_bindsLooser (hwrapped : r.bindsLooser op true = false)
    (h : r.strength = op.precedence) : r.top? = some op ∧ op.isAssociative := by
  cases r with
  | binary op' =>
    have hsame : op'.precedence = op.precedence := h
    simpa [bindsLooser, hsame, top?] using hwrapped
  | _ => exact absurd h.symm (Nat.ne_of_lt (precedence_lt op))

theorem bindsLooser_of_top? (h : r.top? = some op) (hassoc : op.isAssociative) :
    r.bindsLooser op true = false := by
  cases r with
  | binary op' =>
    obtain rfl := Option.some.inj h
    simp [bindsLooser, hassoc]
  | _ => cases h

theorem spine_eq_nil (hp : p.top? = e.top?) (he : e.strength ≠ strength) :
    p.spine strength = [] := by
  refine spine_of_top?_ne fun op hop => ?_
  rw [← precedence_of_top? (hp.symm.trans hop)]
  exact he

/-- What is in parentheses to the right of an operator is not regrouped with it. -/
theorem joined_eq_zero (hp : p.top? = r.top?)
    (h : ¬(r.bindsLooser op true = false ∧ r.strength = op.precedence)) : joined op p = 0 := by
  refine joined_of_top?_ne fun hassoc hop => ?_
  have htop : r.top? = some op := hp.symm.trans hop
  exact h ⟨bindsLooser_of_top? htop hassoc, precedence_of_top? htop⟩

theorem isFlat_chainIn (h : e.chain.IsFlat e.strength) (strength : Nat) (wrapped : Bool) :
    (e.chainIn strength wrapped).IsFlat strength := by
  rw [chainIn]
  split
  case isTrue hin => exact hin.2 ▸ h
  case isFalse => exact .single _ _

namespace OfOperators

theorem top?_phrase (h : e.OfOperators) : e.phrase.regrouped.top? = e.top? := by
  cases h with
  | column table => cases table <;> rfl
  | binary => exact top?_combine ..
  | _ => rfl

theorem last_chain (h : e.OfOperators) : e.chain.links.getLast?.map Prod.fst = e.top? := by
  induction h with
  | @binary op l r _ _ _ hr =>
    rw [chain_binary, Chain.append, List.getLast?_append, List.getLast?_cons]
    change some _ = some op
    rw [chainIn]
    split
    case isTrue hin =>
      rw [(top?_of_bindsLooser hin.1 hin.2).1] at hr
      obtain ⟨last, hlast, rfl⟩ := Option.map_eq_some_iff.1 hr
      rw [hlast]
      rfl
    case isFalse => rfl
  | _ => rfl

theorem top?_chain (h : e.OfOperators) : e.chain.phrase.regrouped.top? = e.top? := by
  have hlast := h.last_chain
  have hphrase := h.top?_phrase
  cases h with
  | binary op =>
    rw [Chain.top?_phrase, hlast]
    rfl
  | _ => exact hphrase

theorem spine_first (h : e.OfOperators) : e.chain.first.regrouped.spine e.strength = [] := by
  induction h with
  | column table => cases table <;> rfl
  | @binary op l r hleft _ hl _ =>
    change (l.chainIn op.precedence (l.bindsLooser op false)).first.regrouped.spine
      op.precedence = []
    rw [chainIn_left]
    split
    case isTrue hsame =>
      rw [← hsame]
      exact hl
    case isFalse hapart => exact spine_eq_nil hleft.top?_chain hapart
  | _ => rfl

theorem flat_chain (h : e.OfOperators) : e.chain.IsFlat e.strength := by
  induction h with
  | @binary op l r _ hright hl hr =>
    have hleft : (l.chainIn op.precedence (l.bindsLooser op false)).IsFlat op.precedence :=
      isFlat_chainIn hl _ _
    have hbehind : (r.chainIn op.precedence (r.bindsLooser op true)).IsFlat op.precedence :=
      isFlat_chainIn hr _ _
    rw [chain_binary]
    refine hleft.append hbehind ?_
    rw [chainIn]
    split
    case isTrue hin =>
      have hfirst := hright.spine_first
      rw [hin.2] at hfirst
      have hle := joined_le op r.chain.first.regrouped
      rw [hfirst] at hle
      exact Nat.le_zero.1 hle
    case isFalse hout => exact joined_eq_zero hright.top?_chain hout
  | _ => exact .single _ _

theorem spine_chain (h : e.OfOperators) :
    e.chain.phrase.regrouped.spine e.strength = e.chain.links.map Prod.fst := by
  rw [Chain.IsFlat.spine_phrase _ h.flat_chain, h.spine_first]
  rfl

/-- What is read of a left operand has the operators that it adds to the chain along its edge. -/
theorem spine_left (h : l.OfOperators) (op : SqlBinary) :
    l.chain.phrase.regrouped.spine op.precedence =
      (l.chainIn op.precedence (l.bindsLooser op false)).links.map Prod.fst := by
  rw [chainIn_left]
  split
  case isTrue hsame =>
    rw [← hsame]
    exact h.spine_chain
  case isFalse hapart => exact spine_eq_nil h.top?_chain hapart

theorem spine_left_le (h : l.OfOperators) (op : SqlBinary)
    (hl : (l.phrase.regrouped.spine l.strength).length ≤ l.chain.links.length) :
    (l.phrase.regrouped.spine op.precedence).length ≤
      (l.chainIn op.precedence (l.bindsLooser op false)).links.length := by
  rw [chainIn_left]
  split
  case isTrue hsame =>
    rw [← hsame]
    exact hl
  case isFalse hapart =>
    rw [spine_eq_nil h.top?_phrase hapart]
    exact Nat.zero_le _

theorem joined_right_le (h : r.OfOperators) (op : SqlBinary)
    (hr : (r.phrase.regrouped.spine r.strength).length ≤ r.chain.links.length) :
    joined op r.phrase.regrouped ≤
      (r.chainIn op.precedence (r.bindsLooser op true)).links.length := by
  rw [chainIn]
  split
  case isTrue hin =>
    rw [hin.2] at hr
    exact Nat.le_trans (joined_le op _) hr
  case isFalse hout =>
    rw [joined_eq_zero h.top?_phrase hout]
    exact Nat.zero_le _

/-- What is meant has no more operators along its edge than are in its chain. -/
theorem spine_le (h : e.OfOperators) :
    (e.phrase.regrouped.spine e.strength).length ≤ e.chain.links.length := by
  induction h with
  | column table => cases table <;> exact Nat.le_refl _
  | @binary op l r hleft hright hl hr =>
    have hbefore := hleft.spine_left_le op hl
    have hbehind := hright.joined_right_le op hr
    rw [chain_binary, Chain.append, List.length_append, List.length_cons]
    change ((combine op l.phrase.regrouped r.phrase.regrouped).spine op.precedence).length ≤ _
    rw [spine_combine, List.length_append, List.length_replicate]
    omega
  | _ => exact Nat.le_refl _

theorem regrouped_chain_binary (op : SqlBinary) (l : SqlExpr)
    (h : ∀ link ∈ (r.chainIn op.precedence (r.bindsLooser op true)).links, link.1 = op) :
    (SqlExpr.binary op l r).chain.phrase.regrouped =
      combine op l.chain.phrase.regrouped r.chain.phrase.regrouped := by
  have hassoc : (r.chainIn op.precedence (r.bindsLooser op true)).links ≠ [] →
      op.isAssociative := by
    rw [chainIn]
    split
    case isTrue hin => exact fun _ => (top?_of_bindsLooser hin.1 hin.2).2
    case isFalse => exact fun hnil => absurd rfl hnil
  rw [chain_binary, Chain.phrase_append, Chain.regrouped_onto _ _ h hassoc, phrase_chainIn,
    phrase_chainIn]

/-- Where an operation is read as it is meant, the chain to the right of the operator is of this
operator, and as many operators as are meant stand along the edge of what is read to the left. -/
theorem links_of_regrouped_eq (hleft : l.OfOperators) (hright : r.OfOperators)
    (h : (SqlExpr.binary op l r).chain.phrase.regrouped =
      combine op l.phrase.regrouped r.phrase.regrouped) :
    (∀ link ∈ (r.chainIn op.precedence (r.bindsLooser op true)).links, link.1 = op) ∧
      (l.chain.phrase.regrouped.spine op.precedence).length =
        (l.phrase.regrouped.spine op.precedence).length := by
  have hread := (hleft.binary op hright).spine_chain
  change spine op.precedence _ = _ at hread
  rw [h, spine_combine, chain_binary, Chain.append, List.map_append, List.map_cons] at hread
  -- Neither operand can put more operators along the edge than it adds to the chain, so that equal
  -- edges put the same number there.
  have hbefore := hleft.spine_left_le op hleft.spine_le
  have hbehind := hright.joined_right_le op hright.spine_le
  have hcount := congrArg List.length hread
  simp only [List.length_append, List.length_replicate, List.length_cons, List.length_map] at hcount
  have hlength : (l.phrase.regrouped.spine op.precedence).length =
      ((l.chainIn op.precedence (l.bindsLooser op false)).links.map Prod.fst).length := by
    rw [List.length_map]
    omega
  obtain ⟨-, hlinks⟩ := List.append_inj hread hlength
  refine ⟨fun link hlink => ?_, ?_⟩
  · have hmem : link.1 ∈ List.replicate (joined op r.phrase.regrouped + 1) op := by
      rw [hlinks]
      exact List.mem_cons_of_mem _ (List.mem_map_of_mem hlink)
    exact List.eq_of_mem_replicate hmem
  · rw [hleft.spine_left op, hlength]

/-- What is read is what is meant, up to regrouping, if and only if each chain that goes on to the
right of an operator is of this operator. -/
theorem regrouped_chain_iff (h : e.OfOperators) :
    e.chain.phrase.regrouped = e.phrase.regrouped ↔ e.keepsChains := by
  induction h with
  | @binary op l r hleft hright hl hr =>
    simp only [keepsChains, Bool.and_eq_true, List.all_eq_true, decide_eq_true_eq, ← hl, ← hr]
    constructor
    · intro hsame
      obtain ⟨hlinks, hcount⟩ := links_of_regrouped_eq hleft hright hsame
      rw [regrouped_chain_binary op l hlinks] at hsame
      exact ⟨combine_inj hsame hcount, hlinks⟩
    · rintro ⟨⟨hsamel, hsamer⟩, hlinks⟩
      rw [regrouped_chain_binary op l hlinks, hsamel, hsamer]
      rfl
  | _ => exact iff_of_true rfl rfl

end OfOperators

/-- What is written of operators is read to its end. It is read as it is meant, up to regrouping, if
and only if no operator is followed, without parentheses, by a chain that was built to its right and
has another operator of the same strength. -/
theorem climb_tokens (h : e.OfOperators) : ∃ p, climbed? e.tokens = some p ∧
    (p.regrouped = e.phrase.regrouped ↔ e.keepsChains) :=
  ⟨_, h.climbed?_tokens, h.regrouped_chain_iff⟩

/-- `(name LIKE 'a%' OR active) AND age - (age - id * (age * 2)) > $1`, with the names in their
table. -/
theorem climb_tokens_nameLike :
    let name := SqlExpr.column (some "t0") "name"
    let active := SqlExpr.column (some "t0") "active"
    let age := SqlExpr.column (some "t0") "age"
    let id := SqlExpr.column (some "t0") "id"
    let product := SqlExpr.binary .multiply id (.binary .multiply age (.literal (.int 2)))
    let e := SqlExpr.binary .and
      (.binary .or (.binary .like name (.literal (.text "a%"))) active)
      (.binary .gt (.binary .minus age (.binary .minus age product)) (.param (.slot 0)))
    e.OfOperators ∧ ∃ p, climbed? e.tokens = some p ∧ p.regrouped = e.phrase.regrouped := by
  intro name active age id product e
  have hproduct : product.OfOperators :=
    .binary _ (.column ..) (.binary _ (.column ..) (.literal _))
  have hage : age.OfOperators := .column ..
  have htests : (SqlExpr.binary .or (.binary .like name (.literal (.text "a%")))
      active).OfOperators := .binary _ (.binary _ (.column ..) (.literal _)) (.column ..)
  have h : e.OfOperators :=
    .binary _ htests (.binary _ (.binary _ hage (.binary _ hage hproduct)) (.param _))
  obtain ⟨p, hp, hsame⟩ := climb_tokens h
  exact ⟨h, p, hp, hsame.2 (by decide)⟩

/-- `age * ((age / id) * age)` is written `age * age / id * age`, where the product is divided. -/
theorem not_climb_multiplyDivide :
    let age := SqlExpr.column (some "t0") "age"
    let id := SqlExpr.column (some "t0") "id"
    let e := SqlExpr.binary .multiply age (.binary .multiply (.binary .divide age id) age)
    ¬∃ p, climbed? e.tokens = some p ∧ p.regrouped = e.phrase.regrouped := by
  rintro age id e ⟨p, hp, hsame⟩
  have h : e.OfOperators :=
    .binary _ (.column ..) (.binary _ (.binary _ (.column ..) (.column ..)) (.column ..))
  rw [h.climbed?_tokens] at hp
  obtain rfl := Option.some.inj hp
  exact absurd (h.regrouped_chain_iff.1 hsame) (by decide)

end SqlExpr
end SequenceQuery
