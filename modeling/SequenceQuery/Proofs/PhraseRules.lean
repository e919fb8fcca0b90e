import SequenceQuery.Proofs.Phrases

namespace SequenceQuery

def Settles {α : Type} (f : Nat → Option α) (a : α) : Prop := ∃ k, ∀ n, k ≤ n → f n = some a

namespace Settles

variable {α β : Type} {f : Nat → Option α} {a : α}

theorem const : Settles (fun _ => some a) a := ⟨0, fun _ _ => rfl⟩

theorem succ (h : Settles (fun n => f (n + 1)) a) : Settles f a := by
  obtain ⟨k, hk⟩ := h
  refine ⟨k + 1, fun n hn => ?_⟩
  obtain ⟨m, rfl⟩ : ∃ m, n = m + 1 := ⟨n - 1, by omega⟩
  exact hk m (by omega)

theorem bind {g : Nat → α → Option β} {c : β} (h : Settles f a) (h' : Settles (fun n => g n a) c) :
    Settles (fun n => (f n).bind (g n)) c := by
  obtain ⟨k, hk⟩ := h
  obtain ⟨k', hk'⟩ := h'
  refine ⟨max k k', fun n hn => ?_⟩
  show (f n).bind (g n) = some c
  rw [hk n (by omega)]
  exact hk' n (by omega)

end Settles

namespace Phrase

/-- The level of the operator that the tokens begin with, nothing without one. A dot joins tighter
than any operator. -/
def joining (tokens : List Token) : Nat :=
  if tokens.head? = some (.symbol ".") then 12
  else
    match Infix.first? tokens with
    | some (op, _) => op.level
    | none => 0

variable {ts us rest : List Token} {p q left : Phrase} {ps qs : List Phrase}

theorem first?_operator (op : SqlBinary) (rest : List Token) :
    Infix.first? (op.token :: rest) = some (.binary op, rest) := by
  cases op <;> rfl

theorem first?_isNullHead (negated : Bool) (rest : List Token) :
    Infix.first? (Infix.isNullHead negated ++ rest) = some (.isNull negated, rest) := by
  cases negated <;> rfl

theorem first?_isInHead (negated : Bool) (rest : List Token) :
    Infix.first? (Infix.isInHead negated ++ rest) = some (.isIn negated, rest) := by
  cases negated <;> rfl

theorem joining_operator (op : SqlBinary) (rest : List Token) :
    joining (op.token :: rest) = op.level := by
  cases op <;> rfl

theorem joining_isNullHead (negated : Bool) (rest : List Token) :
    joining (Infix.isNullHead negated ++ rest) = 4 := by
  cases negated <;> rfl

theorem joining_isInHead (negated : Bool) (rest : List Token) :
    joining (Infix.isInHead negated ++ rest) = 6 := by
  cases negated <;> rfl

theorem joining_closing {t : Token} (h : t.closes) (rest : List Token) :
    joining (t :: rest) = 0 := by
  cases t <;> simp [Token.closes] at h
  case word s =>
    subst h
    rfl
  case symbol s =>
    subst h
    rfl

theorem joining_separator {t : Token} (h : t.separates) (rest : List Token) :
    joining (t :: rest) = 0 := by
  cases t <;> simp [Token.separates] at h
  case word s =>
    rcases h with rfl | rfl | rfl | rfl | rfl | rfl | rfl | rfl | rfl | rfl | rfl | rfl | rfl |
      rfl | rfl | rfl | rfl | rfl | rfl | rfl <;> rfl
  case symbol s =>
    subst h
    rfl

theorem joining_of_first? {op : Infix} (h : Infix.first? ts = some (op, rest)) :
    joining ts = op.level := by
  have hdot : ts.head? ≠ some (.symbol ".") := by
    intro hhead
    obtain ⟨more, rfl⟩ := List.head?_eq_some_iff.1 hhead
    cases h
  rw [joining, if_neg hdot, h]

theorem level_pos (op : Infix) : 0 < op.level := by
  cases op with
  | binary op => cases op <;> decide
  | isNull | isIn => exact Nat.succ_pos _

variable {least last : Nat} {r : Phrase × List Token}

theorem behind_stops (h : joining rest = 0 ∨ joining rest < least) :
    Settles (behind · least last left rest) (left, rest) := by
  have hstop : ∀ n, behind (n + 1) least last left rest = some (left, rest) := by
    intro n
    rw [behind]
    cases hfirst : Infix.first? rest with
    | none => rfl
    | some found =>
      obtain ⟨op, more⟩ := found
      have hlevel := joining_of_first? hfirst
      have hpos := level_pos op
      exact if_pos (by omega)
  exact .succ ⟨0, fun n _ => hstop n⟩

theorem behind_of_past {op : Infix} (hfirst : Infix.first? ts = some (op, rest))
    (hleast : least ≤ op.level) (hsingle : Infix.isSingle op.level → last ≠ op.level)
    (h : Settles (past · least op left rest) r) : Settles (behind · least last left ts) r := by
  have hstep : ∀ n, behind (n + 1) least last left ts = past n least op left rest := by
    intro n
    have hsingle' : ¬(op.level = last ∧ Infix.isSingle last) := by
      rintro ⟨rfl, hs⟩
      exact hsingle hs rfl
    rw [behind, hfirst]
    dsimp only
    rw [if_neg (Nat.not_lt.2 hleast), if_neg hsingle']
  refine .succ ?_
  simp only [hstep]
  exact h

theorem behind_binary {op : SqlBinary} (hleast : least ≤ op.level)
    (hsingle : Infix.isSingle op.level → last ≠ op.level)
    (hright : Settles (one · (op.level + 1) ts) (p, rest))
    (h : Settles (behind · least op.level (.binary op left p) rest) r) :
    Settles (behind · least last left (op.token :: ts)) r := by
  refine behind_of_past (first?_operator op ts) hleast hsingle (.succ ?_)
  exact hright.bind h

theorem behind_isNull (negated : Bool) (hleast : least ≤ 4)
    (h : Settles (behind · least 4 (.node (Infix.isNullHead negated) [left]) rest) r) :
    Settles (behind · least last left (Infix.isNullHead negated ++ rest)) r :=
  behind_of_past (first?_isNullHead negated rest) hleast nofun (.succ h)

theorem behind_isIn (negated : Bool) (hleast : least ≤ 6) (hlast : last ≠ 6)
    (hquery : Settles (fun n => (several n ts).bind (closedBy (.symbol ")"))) (ps, rest))
    (h : Settles (behind · least 6 (.node (Infix.isInHead negated) [left, .node [] ps]) rest) r) :
    Settles (behind · least last left (Infix.isInHead negated ++ .symbol "(" :: ts)) r := by
  refine behind_of_past (first?_isInHead negated _) hleast (fun _ => hlast) (.succ ?_)
  exact hquery.bind h

theorem one_of_operand (hp : Settles (operand · ts) (p, rest))
    (h : Settles (behind · least 0 p rest) r) : Settles (one · least ts) r := by
  have hstep : ∀ n, one (n + 1) least ts =
      (operand n ts).bind fun x => behind n least 0 x.1 x.2 := fun _ => rfl
  refine .succ ?_
  simp only [hstep]
  exact hp.bind h

/-- The ends of what is read as one phrase. An operator to its left is to be looser than `left`, one
to its right looser than `right`; `top` is the level of an operator that stands at its top. -/
structure Edges where
  left : Nat
  right : Nat
  top : Nat

def Edges.closed : Edges := ⟨12, 12, 0⟩

/-- The tokens are read as the phrase, wherever its edges allow. -/
structure ReadAs (ts : List Token) (edges : Edges) (p : Phrase) : Prop where
  opens : ∃ t more, ts = t :: more ∧ t.closes = false ∧ t.separates = false
  reads : ∀ {least rest r}, least ≤ edges.left → joining rest < edges.right →
    Settles (behind · least edges.top p rest) r → Settles (one · least (ts ++ rest)) r

structure Extends (op : SqlBinary) (ts : List Token) (right : Nat) (f : Phrase → Phrase) :
    Prop where
  reads : ∀ left {least last rest r}, least ≤ op.level →
    (Infix.isSingle op.level → last ≠ op.level) → joining rest < right →
    Settles (behind · least op.level (f left) rest) r →
      Settles (behind · least last left (op.token :: ts ++ rest)) r

structure SeveralAs (ts : List Token) (ps : List Phrase) : Prop where
  reads : ∀ {rest qs more}, joining rest = 0 → Settles (several · rest) (qs, more) →
    Settles (several · (ts ++ rest)) (ps ++ qs, more)

def Apart (ts : List Token) : Prop := ∀ rest, joining rest = 0 → joining (ts ++ rest) = 0

section Rules

variable {edges : Edges} {t : Token} {op : SqlBinary} {right right' : Nat} {f g : Phrase → Phrase}

theorem ReadAs.alone (h : ReadAs ts edges p) (hleast : least ≤ edges.left)
    (hrest : joining rest < edges.right) (hstop : joining rest = 0 ∨ joining rest < least) :
    Settles (one · least (ts ++ rest)) (p, rest) :=
  h.reads hleast hrest (behind_stops hstop)

theorem readAs_operand (hopens : ∃ t more, ts = t :: more ∧ t.closes = false ∧ t.separates = false)
    (h : ∀ rest, joining rest < 12 → Settles (operand · (ts ++ rest)) (p, rest)) :
    ReadAs ts .closed p where
  opens := hopens
  reads _ hrest hr := one_of_operand (h _ hrest) hr

theorem Extends.of_readAs (h : ReadAs ts edges p) (hlevel : op.level < edges.left) :
    Extends op ts (min (op.level + 1) edges.right) fun left => .binary op left p where
  reads _ _ _ _ _ hleast hsingle hrest hr := by
    obtain ⟨hstop, hrest⟩ := Nat.lt_min.1 hrest
    exact behind_binary hleast hsingle (h.alone hlevel hrest (.inr hstop)) hr

theorem Extends.trans (h : Extends op ts right f) (h' : Extends op us right' g)
    (hmany : Infix.isSingle op.level = false) (hlevel : op.level < right) :
    Extends op (ts ++ op.token :: us) right' (g ∘ f) where
  reads left least last rest r hleast hsingle hrest hr := by
    have hmany' : Infix.isSingle op.level → op.level ≠ op.level := by simp [hmany]
    have hsecond := h'.reads (f left) hleast hmany' hrest hr
    have hjoins : joining (op.token :: us ++ rest) < right := by
      rw [List.cons_append, joining_operator]
      exact hlevel
    have hfirst := h.reads left hleast hsingle hjoins hsecond
    simpa using hfirst

theorem ReadAs.binary (h : ReadAs ts edges p) (h' : Extends op us right f)
    (hlevel : op.level < edges.right) (hsingle : Infix.isSingle op.level → edges.top ≠ op.level) :
    ReadAs (ts ++ op.token :: us) ⟨min op.level edges.left, right, op.level⟩ (f p) where
  opens := by
    obtain ⟨t, more, rfl, hopens⟩ := h.opens
    exact ⟨t, _, rfl, hopens⟩
  reads {least rest r} hleast hrest hr := by
    obtain ⟨hleast, hleft⟩ := Nat.le_min.1 hleast
    have hbehind := h'.reads p hleast hsingle hrest hr
    have hjoins : joining (op.token :: us ++ rest) < edges.right := by
      rw [List.cons_append, joining_operator]
      exact hlevel
    have hread := h.reads hleft hjoins hbehind
    simpa using hread

theorem ReadAs.isNull (h : ReadAs ts edges p) (negated : Bool) (hlevel : 4 < edges.right) :
    ReadAs (ts ++ Infix.isNullHead negated) ⟨min 4 edges.left, 12, 4⟩
      (.node (Infix.isNullHead negated) [p]) where
  opens := by
    obtain ⟨t, more, rfl, hopens⟩ := h.opens
    exact ⟨t, _, rfl, hopens⟩
  reads {least rest r} hleast hrest hr := by
    obtain ⟨hleast, hleft⟩ := Nat.le_min.1 hleast
    have hbehind : Settles (behind · least edges.top p (Infix.isNullHead negated ++ rest)) r :=
      behind_isNull negated hleast hr
    rw [List.append_assoc]
    refine h.reads hleft ?_ hbehind
    rwa [joining_isNullHead]

theorem several_closing {close : Token} (hclose : close.closes) :
    Settles (several · (close :: rest)) ([], close :: rest) := by
  have hstep : ∀ n, several (n + 1) (close :: rest) = some ([], close :: rest) :=
    fun _ => if_pos hclose
  exact .succ ⟨0, fun n _ => hstep n⟩

theorem SeveralAs.enclosed (h : SeveralAs ts ps) (close : Token) (hclose : close.closes)
    (rest : List Token) :
    Settles (fun n => (several n (ts ++ close :: rest)).bind (closedBy close)) (ps, rest) := by
  have hall := h.reads (joining_closing hclose rest) (several_closing hclose)
  rw [List.append_nil] at hall
  refine hall.bind (g := fun _ => closedBy close) ?_
  rw [closedBy, if_pos rfl]
  exact .const

theorem ReadAs.isIn (h : ReadAs ts edges p) (hquery : SeveralAs us ps) (negated : Bool)
    (hlevel : 6 < edges.right) (htop : edges.top ≠ 6) :
    ReadAs (ts ++ Infix.isInHead negated ++ .symbol "(" :: us ++ [.symbol ")"])
      ⟨min 6 edges.left, 12, 6⟩ (.node (Infix.isInHead negated) [p, .node [] ps]) where
  opens := by
    obtain ⟨t, more, rfl, hopens⟩ := h.opens
    exact ⟨t, _, rfl, hopens⟩
  reads {least rest r} hleast hrest hr := by
    have hclosed := hquery.enclosed (.symbol ")") rfl rest
    obtain ⟨hleast, hleft⟩ := Nat.le_min.1 hleast
    have hbehind : Settles (behind · least edges.top p
        (Infix.isInHead negated ++ .symbol "(" :: (us ++ .symbol ")" :: rest))) r :=
      behind_isIn negated hleast htop hclosed hr
    have hread := h.reads hleft (by rwa [joining_isInHead]) hbehind
    simpa using hread

theorem ReadAs.prefixed (h : ReadAs ts edges p) {least : Nat} (hleast : least ≤ edges.left)
    (hopens : t.closes = false ∧ t.separates = false)
    (hstep : ∀ n more, operand (n + 1) (t :: more) =
      (one n least more).bind fun x => some (.node [t] [x.1], x.2)) :
    ReadAs (t :: ts) ⟨12, min least edges.right, 0⟩ (.node [t] [p]) where
  opens := ⟨t, ts, rfl, hopens⟩
  reads {least' rest r} _ hrest hr := by
    obtain ⟨hstop, hrest⟩ := Nat.lt_min.1 hrest
    have hoperand := h.alone hleast hrest (.inr hstop)
    have hnode : Settles (operand · (t :: ts ++ rest)) (.node [t] [p], rest) := by
      refine .succ ?_
      simp only [List.cons_append, hstep]
      exact hoperand.bind .const
    exact one_of_operand hnode hr

theorem ReadAs.not (h : ReadAs ts edges p) (hleft : 4 ≤ edges.left) :
    ReadAs (.word "NOT" :: ts) ⟨12, min 4 edges.right, 0⟩ (.node [.word "NOT"] [p]) :=
  h.prefixed hleft ⟨rfl, rfl⟩ fun _ _ => rfl

theorem ReadAs.minus (h : ReadAs ts edges p) (hleft : 11 ≤ edges.left) :
    ReadAs (.symbol "-" :: ts) ⟨12, min 11 edges.right, 0⟩ (.node [.symbol "-"] [p]) :=
  h.prefixed hleft ⟨rfl, rfl⟩ fun _ _ => rfl

theorem SeveralAs.between (h : SeveralAs ts ps) (opening : List Token) (close : Token)
    (made : List Phrase → Phrase) (hclose : close.closes)
    (hopens : ∃ t more, opening = t :: more ∧ t.closes = false ∧ t.separates = false)
    (hstep : ∀ n more, operand (n + 1) (opening ++ more) =
      ((several n more).bind (closedBy close)).bind fun x => some (made x.1, x.2)) :
    ReadAs (opening ++ ts ++ [close]) .closed (made ps) := by
  refine readAs_operand ?_ fun rest _ => ?_
  · obtain ⟨t, more, rfl, hopens⟩ := hopens
    exact ⟨t, _, rfl, hopens⟩
  · have hclosed := h.enclosed close hclose rest
    refine .succ ?_
    simp only [List.append_assoc, hstep, List.singleton_append]
    exact hclosed.bind .const

theorem SeveralAs.nil : SeveralAs [] [] := ⟨fun _ h => h⟩

theorem closes_of_separates (h : t.separates) : t.closes = false := by
  cases t with
  | word s =>
    by_contra hcloses
    have hend : s = "END" := by simpa [Token.closes] using hcloses
    subst hend
    exact absurd h (by decide)
  | symbol s =>
    have hcomma : s = "," := by simpa [Token.separates] using h
    subst hcomma
    rfl
  | _ => rfl

theorem SeveralAs.separator (h : SeveralAs ts ps) (ht : t.separates) :
    SeveralAs (t :: ts) (.leaf [t] :: ps) where
  reads {rest qs more} hrest hmore := by
    have hcloses := closes_of_separates ht
    have hstep : ∀ n, several (n + 1) (t :: ts ++ rest) =
        (several n (ts ++ rest)).bind fun x => some (.leaf [t] :: x.1, x.2) := by
      intro n
      rw [List.cons_append, several, if_neg (by simp [hcloses]), if_pos ht]
      rfl
    refine .succ ?_
    simp only [hstep]
    exact (h.reads hrest hmore).bind .const

theorem ReadAs.several (h : ReadAs ts edges p) (hright : 0 < edges.right) : SeveralAs ts [p] where
  reads {rest qs more} hrest hmore := by
    obtain ⟨t, tokens, rfl, hcloses, hseparates⟩ := h.opens
    have hone : Settles (one · 0 (t :: tokens ++ rest)) (p, rest) :=
      h.alone (Nat.zero_le _) (by omega) (.inl hrest)
    have hstep : ∀ n, Phrase.several (n + 1) (t :: tokens ++ rest) =
        (one n 0 (t :: tokens ++ rest)).bind fun x =>
          (Phrase.several n x.2).bind fun y => some (x.1 :: y.1, y.2) := by
      intro n
      rw [List.cons_append, Phrase.several, if_neg (by simp [hcloses]),
        if_neg (by simp [hseparates])]
      rfl
    refine .succ ?_
    simp only [hstep]
    exact hone.bind (hmore.bind .const)

theorem SeveralAs.append (h : SeveralAs ts ps) (h' : SeveralAs us qs) (hapart : Apart us) :
    SeveralAs (ts ++ us) (ps ++ qs) where
  reads {rest qs' more} hrest hmore := by
    have hall := h.reads (hapart rest hrest) (h'.reads hrest hmore)
    simpa using hall

theorem apart_nil : Apart [] := fun _ h => h

theorem apart_separator (ht : t.separates) : Apart (t :: ts) := fun _ _ => joining_separator ht _

theorem Apart.append (h : Apart ts) (h' : Apart us) : Apart (ts ++ us) := by
  intro rest hrest
  rw [List.append_assoc]
  exact h _ (h' rest hrest)

end Rules

end Phrase

end SequenceQuery
