import SequenceQuery.Proofs.Reading

namespace SequenceQuery

/-- No two of the names differ in letter case alone. -/
def Distinguishes (names : List String) : Prop :=
  ∀ n ∈ names, ∀ m ∈ names, Text.sameFold n m = true → n = m

namespace Text

theorem sameFold_iff {a b : String} : sameFold a b = true ↔ lower a = lower b := beq_iff_eq

theorem toList_lower (s : String) : (lower s).toList = s.toList.map Char.toLower :=
  String.toList_map

theorem sameFold_eq (a b : String) :
    sameFold a b = (a.toList.map Char.toLower == b.toList.map Char.toLower) := by
  rw [Bool.eq_iff_iff, sameFold_iff, beq_iff_eq, ← String.toList_inj, toList_lower, toList_lower]

theorem lower_append (a b : String) : lower (a ++ b) = lower a ++ lower b := by
  rw [← String.toList_inj, String.toList_append, toList_lower, toList_lower, toList_lower,
    String.toList_append, List.map_append]

theorem sameFold_append_left {a b c : String} :
    sameFold (a ++ b) (a ++ c) = true ↔ sameFold b c = true := by
  rw [sameFold_iff, sameFold_iff, lower_append, lower_append, String.append_right_inj]

end Text

theorem Distinguishes.nil : Distinguishes [] := nofun

theorem Distinguishes.singleton (name : String) : Distinguishes [name] := by
  intro n hn m hm _
  rw [List.mem_singleton.1 hn, List.mem_singleton.1 hm]

theorem Distinguishes.append {names others : List String} (h : Distinguishes names)
    (h' : Distinguishes others)
    (hacross : ∀ n ∈ names, ∀ m ∈ others, Text.sameFold n m = true → n = m) :
    Distinguishes (names ++ others) := by
  intro n hn m hm hfold
  rcases List.mem_append.1 hn with hn | hn <;> rcases List.mem_append.1 hm with hm | hm
  · exact h n hn m hm hfold
  · exact hacross n hn m hm hfold
  · exact (hacross m hm n hn (Text.sameFold_iff.2 (Text.sameFold_iff.1 hfold).symm)).symm
  · exact h' n hn m hm hfold

theorem Distinguishes.nodup_lower {names : List String} (h : Distinguishes names)
    (hnodup : names.Nodup) : (names.map Text.lower).Nodup := by
  refine List.Nodup.map_on (fun n hn m hm heq => ?_) hnodup
  exact h n hn m hm (Text.sameFold_iff.2 heq)

theorem Distinguishes.of_lower {names : List String} (h : ∀ n ∈ names, Text.lower n = n) :
    Distinguishes names := by
  intro n hn m hm hfold
  rw [← h n hn, ← h m hm]
  exact Text.sameFold_iff.1 hfold

/-- The names that columns below a path can have, made of these words. -/
def Below (words : List String) (path name : String) : Prop :=
  ∃ ws ⊆ words, name = ws.foldl Binding.subpath path

/-- Wherever an object stands, what is below one of two fields and what is below the other do not
differ in letter case alone. -/
def Apart (words : List String) (field other : String) : Prop :=
  ∀ path n m, Below words (Binding.subpath path field) n →
    Below words (Binding.subpath path other) m → Text.sameFold n m = true → n = m

variable {words : List String} {path name field : String}

namespace Below

theorem refl (words : List String) (path : String) : Below words path path :=
  ⟨[], List.nil_subset _, rfl⟩

theorem word (h : name ∈ words) (path : String) : Below words path (Binding.subpath path name) :=
  ⟨[name], List.cons_subset.2 ⟨h, List.nil_subset _⟩, rfl⟩

theorem trans {n m : String} (h : Below words path n) (h' : Below words n m) :
    Below words path m := by
  obtain ⟨ws, hws, rfl⟩ := h
  obtain ⟨ws', hws', rfl⟩ := h'
  exact ⟨ws ++ ws', List.append_subset.2 ⟨hws, hws'⟩, by rw [List.foldl_append]⟩

theorem of_lower (h : Below words path name) (hwords : ∀ w ∈ words, Text.lower w = w) :
    ∃ rest, name = path ++ rest ∧ Text.lower rest = rest := by
  obtain ⟨ws, hws, rfl⟩ := h
  induction ws generalizing path with
  | nil => exact ⟨"", by simp, by decide +kernel⟩
  | cons w ws ih =>
    obtain ⟨hw, hws⟩ := List.cons_subset.1 hws
    obtain ⟨rest, hname, hrest⟩ := @ih (Binding.subpath path w) hws
    by_cases hpath : path = ""
    · subst hpath
      refine ⟨w ++ rest, ?_, by rw [Text.lower_append, hwords w hw, hrest]⟩
      rw [List.foldl_cons, hname, Binding.subpath, if_pos rfl, String.empty_append]
    · refine ⟨"_" ++ w ++ rest, ?_, ?_⟩
      · rw [List.foldl_cons, hname, Binding.subpath, if_neg hpath]
        simp only [String.append_assoc]
      · have hunderscore : Text.lower "_" = "_" := by decide +kernel
        rw [Text.lower_append, Text.lower_append, hunderscore, hwords w hw, hrest]

end Below

namespace Binding

theorem map_fst_fieldsAsOptional (fields : List (String × Binding)) :
    (fieldsAsOptional fields).map Prod.fst = fields.map Prod.fst := by
  induction fields with
  | nil => rfl
  | cons f fields ih => rw [fieldsAsOptional, List.map_cons, List.map_cons, ih]

theorem map_fst_readFieldsFrom (label path : String) (fields : List (String × Binding)) :
    (readFieldsFrom label path fields).map Prod.fst = fields.map Prod.fst := by
  induction fields with
  | nil => rfl
  | cons f fields ih => rw [readFieldsFrom, List.map_cons, List.map_cons, ih]

/-- Every name that the binding gives columns is made of these words, and no two of them that stand
in one row differ in letter case alone. -/
inductive Tidy (words : List String) : Binding → Prop
  | record {label : String} {entity : Entity} {columnPrefix : String} (optional : Bool)
    (hwords : ∀ p ∈ entity.properties, p.column ∈ words)
    (hcase : Distinguishes (entity.properties.map Property.column))
    (hpath : columnPrefix = "" ∨
      ∃ path, path ≠ "" ∧ Below words "" path ∧ columnPrefix = path ++ "_") :
    Tidy words (.record label entity columnPrefix optional)
  | object {fields : List (String × Binding)} (hwords : fields.map Prod.fst ⊆ words)
    (hapart : (fields.map Prod.fst).Pairwise (Apart words)) (h : ∀ f ∈ fields, Tidy words f.2) :
    Tidy words (.object fields)
  | scalar {s : Scalar} (h : Below words "" (leafName "" s.expr)) : Tidy words (.scalar s)
  | group {key element : Binding} (hkey : Tidy words key) (helement : Tidy words element) :
    Tidy words (.group key element)

mutual

theorem Tidy.leaves? : ∀ {b : Binding} {path : String} {ls : List Leaf}, b.Tidy words →
    b.leaves? path = some ls →
      (∀ l ∈ ls, Below words path l.name) ∧ Distinguishes (ls.map Leaf.name)
  | .record _ entity .., path, ls, .record _ hwords hcase _, h => by
    cases h
    refine ⟨List.forall_mem_map.2 fun p hp => Below.word (hwords p hp) path, ?_⟩
    rw [List.map_map]
    refine List.forall_mem_map.2 fun p hp => List.forall_mem_map.2 fun q hq hfold => ?_
    simp only [Function.comp_apply, subpath_eq] at hfold ⊢
    rw [hcase _ (List.mem_map_of_mem hp) _ (List.mem_map_of_mem hq)
      (Text.sameFold_append_left.1 hfold)]
  | .object _, path, ls, .object hwords hapart hfields, h => by
    obtain ⟨hbelow, hnames⟩ := tidy_fieldLeaves? hapart hfields h
    refine ⟨fun l hl => ?_, hnames⟩
    obtain ⟨f, hf, hl⟩ := hbelow l hl
    exact (Below.word (hwords (List.mem_map_of_mem hf)) path).trans hl
  | .scalar s, path, ls, .scalar hs, h => by
    cases h
    refine ⟨List.forall_mem_singleton.2 ?_, .singleton _⟩
    by_cases hpath : path = ""
    · subst hpath
      exact hs
    · unfold leafName
      rw [if_neg hpath]
      exact .refl words path
  | .group .., _, _, _, h => nomatch h

theorem tidy_fieldLeaves? : ∀ {fields : List (String × Binding)} {path : String} {ls : List Leaf},
    (fields.map Prod.fst).Pairwise (Apart words) →
      (∀ f ∈ fields, f.2.Tidy words) → fieldLeaves? path fields = some ls →
        (∀ l ∈ ls, ∃ f ∈ fields, Below words (subpath path f.1) l.name) ∧
          Distinguishes (ls.map Leaf.name)
  | [], _, _, _, _, h => by
    cases h
    exact ⟨nofun, .nil⟩
  | (name, b) :: rest, path, ls, hapart, hfields, h => by
    obtain ⟨hb, hrest⟩ := List.forall_mem_cons.1 hfields
    obtain ⟨hfirst, hothers⟩ := List.pairwise_cons.1 hapart
    obtain ⟨first, hls, h⟩ := Option.bind_eq_some_iff.1 h
    obtain ⟨others, hothers', h⟩ := Option.bind_eq_some_iff.1 h
    cases h
    obtain ⟨hbelow, hnames⟩ := Tidy.leaves? hb hls
    obtain ⟨hbelow', hnames'⟩ := tidy_fieldLeaves? hothers hrest hothers'
    refine ⟨List.forall_mem_append.2 ⟨fun l hl => ⟨_, List.mem_cons_self, hbelow l hl⟩,
      fun l hl => ?_⟩, ?_⟩
    · obtain ⟨f, hf, hl⟩ := hbelow' l hl
      exact ⟨f, List.mem_cons_of_mem _ hf, hl⟩
    · rw [List.map_append]
      refine hnames.append hnames' (List.forall_mem_map.2 fun l hl =>
        List.forall_mem_map.2 fun l' hl' hfold => ?_)
      obtain ⟨f, hf, hl'⟩ := hbelow' l' hl'
      exact hfirst f.1 (List.mem_map_of_mem hf) path _ _ (hbelow l hl) hl' hfold

end

mutual

theorem Tidy.asOptional : ∀ {b : Binding}, b.Tidy words → b.asOptional.Tidy words
  | .record .., .record _ hwords hcase hpath => .record true hwords hcase hpath
  | .object fields, .object hwords hapart hfields =>
    have hnames := map_fst_fieldsAsOptional fields
    .object (hnames ▸ hwords) (hnames ▸ hapart) (tidy_fieldsAsOptional hfields)
  | .scalar _, .scalar h => .scalar h
  | .group .., .group hkey helement => .group hkey helement

theorem tidy_fieldsAsOptional : ∀ {fields : List (String × Binding)},
    (∀ f ∈ fields, f.2.Tidy words) → ∀ f ∈ fieldsAsOptional fields, f.2.Tidy words
  | [], _ => nofun
  | (_, _) :: _, h =>
    have ⟨hb, hrest⟩ := List.forall_mem_cons.1 h
    List.forall_mem_cons.2 ⟨Tidy.asOptional hb, tidy_fieldsAsOptional hrest⟩

end

mutual

/-- What is read back from a derived table has the names that it was projected with. -/
theorem Tidy.readFrom {label : String} : ∀ {b : Binding} {path : String}, b.Tidy words →
    Below words "" path → (b.readFrom label path).Tidy words
  | .record .., path, .record optional hwords hcase _, hpath => by
    refine .record optional hwords hcase ?_
    by_cases hempty : path = ""
    · exact .inl (if_pos hempty)
    · exact .inr ⟨path, hempty, hpath, if_neg hempty⟩
  | .object fields, path, .object hwords hapart hfields, hpath => by
    have hnames := map_fst_readFieldsFrom label path fields
    exact .object (hnames ▸ hwords) (hnames ▸ hapart) (tidy_readFieldsFrom hwords hfields hpath)
  | .scalar s, path, .scalar hs, hpath => by
    refine .scalar ?_
    by_cases hempty : path = ""
    · subst hempty
      simpa [leafName, SqlExpr.columnOf] using hs
    · simpa [leafName, SqlExpr.columnOf, hempty] using hpath
  | .group .., _, .group hkey helement, _ => .group hkey helement

theorem tidy_readFieldsFrom {label : String} : ∀ {fields : List (String × Binding)} {path : String},
    fields.map Prod.fst ⊆ words → (∀ f ∈ fields, f.2.Tidy words) → Below words "" path →
      ∀ f ∈ readFieldsFrom label path fields, f.2.Tidy words
  | [], _, _, _, _ => nofun
  | (_, _) :: _, path, hwords, h, hpath =>
    have ⟨hname, hnames⟩ := List.cons_subset.1 hwords
    have ⟨hb, hrest⟩ := List.forall_mem_cons.1 h
    List.forall_mem_cons.2 ⟨Tidy.readFrom hb (hpath.trans (.word hname path)),
      tidy_readFieldsFrom hnames hrest hpath⟩

end

theorem Tidy.member {b found : Binding} {node : Expr} (h : b.Tidy words)
    (hm : b.member name node = .ok found) : found.Tidy words := by
  cases member_ok hm with
  | column hp =>
    cases h with
    | record _ hwords _ hpath =>
      have hword := hwords _ (Text.findNamed?_mem hp)
      refine .scalar ?_
      rcases hpath with rfl | ⟨path, hne, hbelow, rfl⟩
      · simpa [leafName, SqlExpr.columnOf, subpath] using Below.word hword ""
      · simpa [leafName, SqlExpr.columnOf, subpath, hne] using hbelow.trans (.word hword path)
  | field hf =>
    cases h with
    | object _ _ hfields => exact hfields _ (Text.findNamed?_mem hf)
  | key _ =>
    cases h with
    | group hkey _ => exact hkey

end Binding

end SequenceQuery
