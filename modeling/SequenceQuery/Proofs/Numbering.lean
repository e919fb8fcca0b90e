import SequenceQuery.Proofs.Signatures
import SequenceQuery.Proofs.Writer

namespace SequenceQuery

/-- The sources of the parameters in the order in which they stand in the text. -/
def Select.occurrences (s : Select) : List Source := s.tokens.filterMap Token.source?

theorem Token.source?_of_not_isData {t : Token} (h : t.isData = false) : t.source? = none := by
  cases t <;> first | rfl | cases h

theorem Token.filterMap_data (tokens : List Token) :
    (Token.data tokens).filterMap Token.source? = tokens.filterMap Token.source? := by
  induction tokens with
  | nil => rfl
  | cons t tokens ih =>
    rw [Token.data, List.filter_cons]
    split
    · rw [List.filterMap_cons, List.filterMap_cons, ← ih, Token.data]
    · next h =>
      rw [List.filterMap_cons, Token.source?_of_not_isData (by simpa using h)]
      exact ih

theorem Piece.filterMap_data (piece : Piece) :
    piece.data.filterMap Token.source? = piece.source?.toList := by
  unfold Piece.data
  split
  · rfl
  · next table column => cases table <;> rfl
  · next value => cases value <;> rfl
  · rfl
  · next e _ _ h => cases e <;> first | rfl | exact absurd rfl (h _)

/-- Every parameter of a statement is written, at any depth, and in its place. -/
theorem Select.occurrences_eq (s : Select) : s.occurrences = s.pieces.filterMap Piece.source? := by
  rw [occurrences, ← Token.filterMap_data, Select.data_tokens, List.filterMap_flatMap,
    List.filterMap_eq_flatMap_toList]
  exact congrArg (s.pieces.flatMap ·) (funext Piece.filterMap_data)

section

variable {α β ε : Type} {f : α → Except ε β}

theorem mapM_eq_error_iff {xs : List α} {err : ε} : xs.mapM f = .error err ↔
    ∃ before x after, xs = before ++ x :: after ∧ (∀ y ∈ before, ∃ v, f y = .ok v) ∧
      f x = .error err := by
  induction xs with
  | nil => exact ⟨nofun, fun ⟨before, x, after, h, _⟩ => by cases before <;> cases h⟩
  | cons x xs ih =>
    rw [List.mapM_cons]
    cases hx : f x with
    | error err' =>
      constructor
      · intro h
        cases h
        exact ⟨[], x, xs, rfl, nofun, hx⟩
      · rintro ⟨before, y, after, h, hbefore, hy⟩
        cases before with
        | nil =>
          obtain ⟨rfl, rfl⟩ := List.cons.inj h
          rw [hx] at hy
          exact congrArg _ (Except.error.inj hy)
        | cons z before =>
          obtain ⟨rfl, -⟩ := List.cons.inj h
          obtain ⟨v, hv⟩ := hbefore x List.mem_cons_self
          rw [hx] at hv
          cases hv
    | ok v =>
      have hrest : (do
          let y ← Except.ok v
          let ys ← xs.mapM f
          pure (y :: ys)) = .error err ↔ xs.mapM f = .error err := by
        cases xs.mapM f with
        | ok ys => exact ⟨nofun, nofun⟩
        | error err' => exact Iff.rfl
      rw [hrest, ih]
      constructor
      · rintro ⟨before, y, after, rfl, hbefore, hy⟩
        exact ⟨x :: before, y, after, rfl, List.forall_mem_cons.2 ⟨⟨v, hx⟩, hbefore⟩, hy⟩
      · rintro ⟨before, y, after, h, hbefore, hy⟩
        cases before with
        | nil =>
          obtain ⟨rfl, rfl⟩ := List.cons.inj h
          rw [hx] at hy
          cases hy
        | cons z before =>
          obtain ⟨rfl, rfl⟩ := List.cons.inj h
          exact ⟨before, y, after, rfl, (List.forall_mem_cons.1 hbefore).2, hy⟩

end

def learn (known : List Source) (source : Source) : List Source :=
  if source ∈ known then known else known ++ [source]

def met (known occurrences : List Source) : List Source := occurrences.foldl learn known

theorem met_append (known before after : List Source) :
    met known (before ++ after) = met (met known before) after := List.foldl_append

theorem met_cons (known : List Source) (source : Source) (rest : List Source) :
    met known (source :: rest) = met (learn known source) rest := rfl

theorem met_eq (known occurrences : List Source) : met known occurrences =
    known ++ (firstOccurrences occurrences).filter fun source => source ∉ known := by
  induction occurrences generalizing known with
  | nil => simp [met, firstOccurrences]
  | cons source rest ih =>
    rw [met_cons, ih, firstOccurrences, learn]
    by_cases h : source ∈ known
    · rw [if_pos h, List.filter_cons_of_neg (by simpa using h), List.filter_filter]
      refine congrArg (known ++ ·) (List.filter_congr fun other _ => ?_)
      by_cases hother : other = source <;> simp [hother, h]
    · rw [if_neg h, List.filter_cons_of_pos (by simpa using h), List.filter_filter,
        List.append_assoc, List.singleton_append]
      refine congrArg (known ++ source :: ·) (List.filter_congr fun other _ => ?_)
      simp

theorem met_nil (occurrences : List Source) : met [] occurrences = firstOccurrences occurrences := by
  simp [met_eq]

theorem mem_firstOccurrences_iff {α : Type} [DecidableEq α] {x : α} {xs : List α} :
    x ∈ firstOccurrences xs ↔ x ∈ xs :=
  ⟨Postgres.mem_firstOccurrences, mem_firstOccurrences_of_mem⟩

theorem firstOccurrences_pairwise {α : Type} [DecidableEq α] (xs : List α) :
    (firstOccurrences xs).Pairwise fun x y => xs.idxOf x < xs.idxOf y := by
  induction xs with
  | nil => exact .nil
  | cons x xs ih =>
    have skip : ∀ y, y ≠ x → (x :: xs).idxOf y = xs.idxOf y + 1 := fun y hy =>
      List.idxOf_cons_ne _ (Ne.symm hy)
    refine .cons (fun y hy => ?_) ((ih.filter _).imp_of_mem fun hy hz hlt => ?_)
    · rw [List.idxOf_cons_self, skip y (by simpa using (List.mem_filter.1 hy).2)]
      exact Nat.succ_pos _
    · rw [skip _ (by simpa using (List.mem_filter.1 hy).2),
        skip _ (by simpa using (List.mem_filter.1 hz).2)]
      exact Nat.succ_lt_succ hlt

theorem firstOccurrences_nodup {α : Type} [DecidableEq α] (xs : List α) :
    (firstOccurrences xs).Nodup :=
  (firstOccurrences_pairwise xs).imp fun hlt heq => Nat.ne_of_lt hlt (congrArg (xs.idxOf ·) heq)

theorem mem_met {known occurrences : List Source} {source : Source} :
    source ∈ met known occurrences ↔ source ∈ known ∨ source ∈ occurrences := by
  rw [met_eq, List.mem_append, List.mem_filter, mem_firstOccurrences_iff, decide_eq_true_iff]
  tauto

theorem mem_learn (known : List Source) (source : Source) : source ∈ learn known source := by
  rw [learn]
  split
  · assumption
  · exact List.mem_append_right _ List.mem_cons_self

theorem known_prefix_met (known occurrences : List Source) : known <+: met known occurrences :=
  ⟨_, (met_eq known occurrences).symm⟩

namespace Postgres

variable {quote : Bool} {arguments : Arguments} {known : List Source}
  {parameters : List BoundParameter} {source : Source}

theorem placeholder_of_known {sources : List Source} (h : known <+: sources)
    (hsource : source ∈ known) : placeholder sources source = placeholder known source := by
  obtain ⟨more, rfl⟩ := h
  rw [placeholder, placeholder, List.idxOf_append_of_mem hsource]

/-- One more source gets the next number; the others keep theirs. -/
theorem boundParameters_concat {v : Value} (h : boundParameters arguments known = .ok parameters)
    (hsource : source ∉ known) (hv : arguments.resolve source = .ok v) :
    boundParameters arguments (known ++ [source]) =
      .ok (parameters ++ [⟨"$" ++ toString (parameters.length + 1), source, v⟩]) := by
  obtain ⟨rfl, hnames⟩ := boundParameters_iff.1 h
  rw [boundParameters_iff]
  refine ⟨by simp, List.forall_mem_append.2 ⟨fun p hp => ?_, List.forall_mem_singleton.2 ⟨?_, hv⟩⟩⟩
  · rw [placeholder_of_known (List.prefix_append ..) (List.mem_map_of_mem hp)]
    exact hnames p hp
  · rw [placeholder, List.idxOf_append_of_notMem hsource]
    simp

/-- The parameters cannot be bound if one source has no value; the first of those is reported. -/
theorem boundParameters_error_iff {err : DialectError} :
    boundParameters arguments known = .error err ↔ ∃ before source after,
      known = before ++ source :: after ∧ (∀ x ∈ before, ∃ v, arguments.resolve x = .ok v) ∧
        arguments.resolve source = .error err := by
  rw [boundParameters, mapM_eq_error_iff]
  refine exists_congr fun before => exists_congr fun source => exists_congr fun after =>
    and_congr Iff.rfl (and_congr (forall₂_congr fun x _ => ?_) ?_)
  · cases arguments.resolve x with
    | ok v => exact ⟨fun _ => ⟨v, rfl⟩, fun _ => ⟨_, rfl⟩⟩
    | error err' =>
      constructor
      · rintro ⟨v, h⟩
        cases h
      · rintro ⟨v, h⟩
        cases h
  · cases arguments.resolve source with
    | ok v =>
      constructor
      · intro h
        cases h
      · intro h
        cases h
    | error err' =>
      constructor
      · intro h
        cases h
        rfl
      · intro h
        cases h
        rfl

theorem boundParameters_error_append {err : DialectError} {sources : List Source}
    (h : boundParameters arguments known = .error err) (hmore : known <+: sources) :
    boundParameters arguments sources = .error err := by
  obtain ⟨before, source, after, rfl, hbefore, hsource⟩ := boundParameters_error_iff.1 h
  obtain ⟨more, rfl⟩ := hmore
  exact boundParameters_error_iff.2
    ⟨before, source, after ++ more, List.append_assoc .., hbefore, hsource⟩

theorem then_text {writer : Writer} {first : String} {name : List BoundParameter → String}
    {final : Except DialectError (List BoundParameter)}
    (h : writer.run parameters = final.map fun final => (name final, final)) :
    (do
      let others ← writer
      return first ++ others : Writer).run parameters =
        final.map fun final => (first ++ name final, final) := by
  rw [StateT.run_bind, h]
  cases final <;> rfl

theorem find?_source (source : Source) (h : boundParameters arguments known = .ok parameters) :
    (parameters.find? fun p => p.source = source).map BoundParameter.name =
      if source ∈ known then some (placeholder known source) else none := by
  obtain ⟨hsources, hnames⟩ := boundParameters_iff.1 h
  cases hfind : parameters.find? fun p => p.source = source with
  | some p =>
    obtain rfl : p.source = source := by simpa using List.find?_some hfind
    have hp := List.mem_of_find?_eq_some hfind
    rw [if_pos (hsources ▸ List.mem_map_of_mem hp), Option.map_some, (hnames p hp).1]
  | none =>
    refine (if_neg fun hsource => ?_).symm
    obtain ⟨p, hp, rfl⟩ := List.mem_map.1 (hsources ▸ hsource)
    simpa using List.find?_eq_none.1 hfind p hp

/-- A source is written by the name that it has among the sources known then. -/
theorem writeSource_run (h : boundParameters arguments known = .ok parameters) :
    (writeSource arguments source).run parameters =
      (boundParameters arguments (learn known source)).map fun parameters =>
        (placeholder (learn known source) source, parameters) := by
  have hfind := find?_source source h
  rw [learn]
  by_cases hsource : source ∈ known
  · rw [if_pos hsource] at hfind
    obtain ⟨p, hp, hname⟩ := Option.map_eq_some_iff.1 hfind
    simp only [writeSource, StateT.run_bind, StateT.run_get, pure_bind, hp, if_pos hsource, h]
    rw [hname]
    rfl
  · rw [if_neg hsource, Option.map_eq_none_iff] at hfind
    simp only [writeSource, StateT.run_bind, StateT.run_get, pure_bind, hfind, if_neg hsource]
    cases hv : arguments.resolve source with
    | ok v =>
      have hname : placeholder (known ++ [source]) source =
          "$" ++ toString (parameters.length + 1) := by
        rw [placeholder, List.idxOf_append_of_notMem hsource, List.idxOf_cons_self, Nat.add_zero,
          ← (boundParameters_iff.1 h).1, List.length_map]
      rw [boundParameters_concat h hsource hv, hname]
      rfl
    | error err =>
      have hknown : ∀ x ∈ known, ∃ v, arguments.resolve x = .ok v := by
        obtain ⟨rfl, hnames⟩ := boundParameters_iff.1 h
        exact List.forall_mem_map.2 fun p hp => ⟨_, (hnames p hp).2⟩
      rw [boundParameters_error_iff.2 ⟨known, source, [], rfl, hknown, hv⟩]
      rfl

/-- The tokens are written with the numbers that their sources have in the end. -/
theorem writeTokens_run (tokens : List Token)
    (h : boundParameters arguments known = .ok parameters) :
    (writeTokens quote arguments tokens).run parameters =
      (boundParameters arguments (met known (tokens.filterMap Token.source?))).map fun parameters =>
        (String.join (tokens.map (tokenText quote (met known (tokens.filterMap Token.source?)))),
          parameters) := by
  induction tokens generalizing known parameters with
  | nil =>
    rw [List.filterMap_nil, met, List.foldl_nil, h]
    rfl
  | cons token tokens ih =>
    rw [writeTokens_cons, StateT.run_bind, List.map_cons, String.join_cons]
    cases hsource : token.source? with
    | none =>
      have htoken : (writeToken quote arguments token).run parameters =
          .ok (tokenText quote (met known (tokens.filterMap Token.source?)) token, parameters) := by
        cases token <;> first | rfl | cases hsource
      rw [htoken, List.filterMap_cons_none hsource]
      exact then_text (ih h)
    | some source =>
      obtain rfl : token = .placeholder source := by cases token <;> cases hsource; rfl
      rw [List.filterMap_cons_some hsource, met_cons, writeToken, writeSource_run h]
      cases hlearn : boundParameters arguments (learn known source) with
      | ok ps =>
        have htext := placeholder_of_known
          (known_prefix_met (learn known source) (tokens.filterMap Token.source?))
          (mem_learn known source)
        rw [tokenText, htext]
        exact then_text (ih hlearn)
      | error err =>
        rw [boundParameters_error_append hlearn (known_prefix_met ..)]
        rfl

theorem writeSelect_run (options : RenderOptions) (arguments : Arguments) (s : Select) :
    (writeSelect options.quoteIdentifiers arguments s).run [] =
      (render options arguments s).map fun command => (command.text, command.parameters) := by
  have hnone : boundParameters arguments [] = .ok [] := rfl
  rw [writeSelect_eq, writeTokens_run s.tokens hnone, met_nil, ← sourcesOf, render]
  cases boundParameters arguments (sourcesOf s.tokens) <;> rfl

theorem bound_error_of_split {occurrences before after : List Source} {err : DialectError}
    (h : occurrences = before ++ source :: after)
    (hbefore : ∀ x ∈ before, ∃ v, arguments.resolve x = .ok v)
    (hsource : arguments.resolve source = .error err) :
    boundParameters arguments (firstOccurrences occurrences) = .error err := by
  have hresolve : ∀ x ∈ met [] before, ∃ v, arguments.resolve x = .ok v :=
    fun x hx => hbefore x ((mem_met.1 hx).resolve_left List.not_mem_nil)
  have hunknown : source ∉ met [] before := by
    intro hmem
    obtain ⟨v, hv⟩ := hresolve source hmem
    rw [hsource] at hv
    cases hv
  have hmore : met [] before ++ [source] <+: firstOccurrences occurrences := by
    have hlearn := known_prefix_met (learn (met [] before) source) after
    rw [learn, if_neg hunknown] at hlearn
    rwa [← met_nil, h, met_append, met_cons, learn, if_neg hunknown]
  exact boundParameters_error_append
    (boundParameters_error_iff.2 ⟨_, source, [], rfl, hresolve, hsource⟩) hmore

theorem exists_unresolved {occurrences : List Source} (hmem : source ∈ occurrences)
    {err : DialectError} (hsource : arguments.resolve source = .error err) :
    ∃ before first after err, occurrences = before ++ first :: after ∧
      (∀ x ∈ before, ∃ v, arguments.resolve x = .ok v) ∧ arguments.resolve first = .error err := by
  obtain ⟨first, hfirst⟩ : ∃ first,
      occurrences.find? (fun x => !(arguments.resolve x).isOk) = some first := by
    refine Option.isSome_iff_exists.1 (List.find?_isSome.2 ⟨source, hmem, ?_⟩)
    rw [hsource]
    rfl
  obtain ⟨hfails, before, after, rfl, hbefore⟩ := List.find?_eq_some_iff_append.1 hfirst
  cases hv : arguments.resolve first with
  | ok v =>
    rw [hv] at hfails
    cases hfails
  | error err =>
    refine ⟨before, first, after, err, rfl, fun x hx => ?_, hv⟩
    have hx := hbefore x hx
    cases hv : arguments.resolve x with
    | ok v => exact ⟨v, rfl⟩
    | error err =>
      rw [hv] at hx
      cases hx

/-- A command cannot be written if one source has no value; the first in the text is reported. -/
theorem render_error_iff {options : RenderOptions} {s : Select} {err : DialectError} :
    render options arguments s = .error err ↔ ∃ before source after,
      s.occurrences = before ++ source :: after ∧
        (∀ x ∈ before, ∃ v, arguments.resolve x = .ok v) ∧
          arguments.resolve source = .error err := by
  have hrender : render options arguments s = .error err ↔
      boundParameters arguments (firstOccurrences s.occurrences) = .error err := by
    rw [render, Select.occurrences, ← sourcesOf]
    cases boundParameters arguments (sourcesOf s.tokens) with
    | ok ps =>
      constructor
      · intro h
        cases h
      · intro h
        cases h
    | error err' =>
      exact ⟨fun h => congrArg _ (Except.error.inj h), fun h => congrArg _ (Except.error.inj h)⟩
  rw [hrender]
  constructor
  · intro h
    obtain ⟨before, source, after, heq, -, hsource⟩ := boundParameters_error_iff.1 h
    have hmem : source ∈ s.occurrences := by
      rw [← mem_firstOccurrences_iff, heq]
      exact List.mem_append_right _ List.mem_cons_self
    obtain ⟨before, first, after, err', hsplit, hbefore, hfirst⟩ := exists_unresolved hmem hsource
    obtain rfl : err = err' := by
      have h' := bound_error_of_split hsplit hbefore hfirst
      rw [h] at h'
      exact Except.error.inj h'
    exact ⟨before, first, after, hsplit, hbefore, hfirst⟩
  · rintro ⟨before, source, after, h, hbefore, hsource⟩
    exact bound_error_of_split h hbefore hsource

/-- Parameters are numbered by the first place of their sources in the text. A writer that goes
through the statement once and hands out a number at a time writes the same command. If every source
has a value, the command has each source once, in the order of their first places, the one at `i`
under the number `i + 1` and with its value, and a source stands everywhere in the text under the
name of its parameter. Otherwise the first source without a value is reported. -/
theorem render_numbers (options : RenderOptions) (arguments : Arguments) (s : Select) :
    (writeSelect options.quoteIdentifiers arguments s).run [] =
        (render options arguments s).map (fun command => (command.text, command.parameters)) ∧
      s.occurrences = s.pieces.filterMap Piece.source? ∧
      ((∀ source ∈ s.occurrences, ∃ v, arguments.resolve source = .ok v) →
        ∃ command, render options arguments s = .ok command ∧
          (∀ source, source ∈ command.sources ↔ source ∈ s.occurrences) ∧
          command.sources.Pairwise (fun a b => s.occurrences.idxOf a < s.occurrences.idxOf b) ∧
          (∀ i p, command.parameters[i]? = some p → p.name = "$" ++ toString (i + 1) ∧
            arguments.resolve p.source = .ok p.value) ∧
          command.text = String.join
            (s.tokens.map (tokenText options.quoteIdentifiers command.sources)) ∧
          ∀ p ∈ command.parameters,
            tokenText options.quoteIdentifiers command.sources (.placeholder p.source) = p.name) ∧
      ∀ err, render options arguments s = .error err ↔ ∃ before source after,
        s.occurrences = before ++ source :: after ∧
          (∀ x ∈ before, ∃ v, arguments.resolve x = .ok v) ∧
            arguments.resolve source = .error err := by
  refine ⟨writeSelect_run options arguments s, s.occurrences_eq, fun hresolve => ?_,
    fun err => render_error_iff⟩
  obtain ⟨command, hcommand⟩ : ∃ command, render options arguments s = .ok command := by
    refine render_ok options fun source hsource => hresolve source ?_
    rwa [s.occurrences_eq, Piece.mem_sources]
  obtain ⟨ps, hps, rfl⟩ : ∃ ps, boundParameters arguments (firstOccurrences s.occurrences) = .ok ps ∧
      command = ⟨String.join (s.tokens.map (tokenText options.quoteIdentifiers
        (firstOccurrences s.occurrences))), ps⟩ := by
    rw [render] at hcommand
    rw [Select.occurrences, ← sourcesOf]
    cases hps : boundParameters arguments (sourcesOf s.tokens) with
    | error err =>
      rw [hps] at hcommand
      cases hcommand
    | ok ps =>
      rw [hps] at hcommand
      exact ⟨ps, rfl, (Except.ok.inj hcommand).symm⟩
  obtain ⟨hsources, hnames⟩ := boundParameters_iff.1 hps
  refine ⟨_, hcommand, ?_⟩
  rw [RenderedCommand.sources]
  dsimp only
  rw [hsources]
  refine ⟨fun source => mem_firstOccurrences_iff, firstOccurrences_pairwise _, fun i p hp => ?_, rfl,
    fun p hp => (hnames p hp).1.symm⟩
  obtain ⟨hi, hp⟩ := List.getElem?_eq_some_iff.1 hp
  obtain ⟨hname, hvalue⟩ := hnames p (hp ▸ List.getElem_mem hi)
  refine ⟨?_, hvalue⟩
  have hindex : (firstOccurrences s.occurrences).idxOf p.source = i := by
    have hi' : i < (ps.map BoundParameter.source).length := by rwa [List.length_map]
    have hnodup : (ps.map BoundParameter.source).Nodup := hsources ▸ firstOccurrences_nodup _
    rw [← hsources, ← hp, ← List.getElem_map BoundParameter.source (h := hi')]
    exact hnodup.idxOf_getElem i hi'
  rw [hname, placeholder, hindex]

/-- `SELECT * FROM (SELECT * FROM t AS t WHERE a = $1) AS s WHERE b = $2 AND a < $1`. -/
def matchedTwice : Select :=
  let inner := { Select.ofTable (.table none "t" "t") with
    filter := some (.binary .eq (.column none "a") (.param (.slot 1))) }
  { Select.ofTable (.subquery inner "s") with
    filter := some (.binary .and
      (.binary .eq (.column none "b") (.param (.slot 0)))
      (.binary .lt (.column none "a") (.param (.slot 1)))) }

theorem render_numbers_matchedTwice : matchedTwice.occurrences = [.slot 1, .slot 0, .slot 1] ∧
    ∃ command, render ⟨false, false⟩ ⟨[.int 5, .int 7], none⟩ matchedTwice = .ok command ∧
      (∀ source, source ∈ command.sources ↔ source ∈ [Source.slot 1, .slot 0, .slot 1]) ∧
      ∀ i p, command.parameters[i]? = some p → p.name = "$" ++ toString (i + 1) := by
  have hoccurrences : matchedTwice.occurrences = [.slot 1, .slot 0, .slot 1] := rfl
  obtain ⟨-, -, hok, -⟩ := render_numbers ⟨false, false⟩ ⟨[.int 5, .int 7], none⟩ matchedTwice
  rw [hoccurrences] at hok
  obtain ⟨command, hcommand, hmem, -, hnames, -⟩ := hok (by
    simp [Arguments.resolve])
  exact ⟨hoccurrences, command, hcommand, hmem, fun i p hp => (hnames i p hp).1⟩

end Postgres

end SequenceQuery
