import SequenceQuery.Proofs.TomlRanges
import SequenceQuery.Proofs.TomlText

namespace SequenceQuery.Toml

section Lookups

variable {α β : Type} {key : String}

theorem lookup_map (f : α → β) (entries : List (String × α)) :
    (entries.map fun e => (e.1, f e.2)).lookup key = (entries.lookup key).map f := by
  induction entries with
  | nil => rfl
  | cons e entries ih =>
    rw [List.map_cons, List.lookup_cons, List.lookup_cons, ih]
    cases key == e.1 <;> rfl

/-- Where no key stands twice, the order of the entries does not matter. -/
theorem lookup_perm {entries entries' : List (String × α)} (h : entries.Perm entries')
    (hkeys : (entries.map Prod.fst).Nodup) : entries.lookup key = entries'.lookup key := by
  induction h with
  | nil => rfl
  | cons e _ ih => rw [List.lookup_cons, List.lookup_cons, ih (List.nodup_cons.1 hkeys).2]
  | swap e e' entries =>
    simp only [List.map_cons, List.nodup_cons, List.mem_cons, not_or] at hkeys
    rw [List.lookup_cons, List.lookup_cons, List.lookup_cons, List.lookup_cons]
    by_cases h : key = e.1
    · have h' : key ≠ e'.1 := fun h' => hkeys.1.1 (h'.symm.trans h)
      rw [beq_iff_eq.2 h, beq_eq_false_iff_ne.2 h']
    · rw [beq_eq_false_iff_ne.2 h]
  | trans h _ ih ih' =>
    rw [ih hkeys, ih' ((h.map Prod.fst).nodup_iff.1 hkeys)]

end Lookups

section Slots

variable {key : String} {slot : Slot} {slots inner : Slots} {path : List String}
  {entries : List (String × Toml)}

theorem put_new (h : key ∉ slots.map Prod.fst) : put key slot slots = slots ++ [(key, slot)] := by
  induction slots with
  | nil => rfl
  | cons e slots ih =>
    simp only [List.map_cons, List.mem_cons, not_or] at h
    rw [put, if_neg (Ne.symm h.1), ih h.2, List.cons_append]

theorem lookup_new (h : key ∉ slots.map Prod.fst) : slots.lookup key = none := by
  rw [List.lookup_eq_none_iff]
  intro e he
  simpa using fun heq : key = e.1 => h (heq ▸ List.mem_map_of_mem he)

theorem put_last (h : key ∉ slots.map Prod.fst) (slot' : Slot) :
    put key slot (slots ++ [(key, slot')]) = slots ++ [(key, slot)] := by
  induction slots with
  | nil => exact if_pos rfl
  | cons e slots ih =>
    simp only [List.map_cons, List.mem_cons, not_or] at h
    rw [List.cons_append, put, if_neg (Ne.symm h.1), ih h.2, List.cons_append]

theorem lookup_last (h : key ∉ slots.map Prod.fst) :
    (slots ++ [(key, slot)]).lookup key = some slot := by
  rw [List.lookup_append, lookup_new h, Option.none_or, List.lookup_cons_self]

/-- What the table is in that was opened last under a key. -/
inductive Opens : (Slots → Slot) → Prop
  | opened (how : Opening) : Opens (.opened how)
  | element (earlier : List Slots) : Opens fun last => .many (last :: earlier)

theorem atPath_last {open' : Slots → Slot} (hopen : Opens open') (h : key ∉ slots.map Prod.fst)
    (hpath : path ≠ []) (change : Option Slot → Option Slot) :
    atPath change (key :: path) (slots ++ [(key, open' inner)]) =
      (atPath change path inner).map fun inner => slots ++ [(key, open' inner)] := by
  rw [atPath, lookup_last h]
  · cases hopen with
    | _ => cases hinner : atPath change path inner <;> simp [hinner, put_last h]
  · exact hpath

theorem addSection_under {open' : Slots → Slot} (hopen : Opens open')
    (h : key ∉ slots.map Prod.fst) {s : Section} (hpath : s.1.path ≠ []) :
    addSection (slots ++ [(key, open' inner)]) (s.under key) =
      (addSection inner s).map fun inner => slots ++ [(key, open' inner)] := by
  obtain ⟨⟨path⟩ | ⟨path⟩, as⟩ := s
  · exact atPath_last hopen h hpath _
  · exact atPath_last hopen h hpath _

theorem addSections_under {open' : Slots → Slot} (hopen : Opens open')
    (h : key ∉ slots.map Prod.fst) {ss : List Section} (hpath : ∀ s ∈ ss, s.1.path ≠ []) :
    (ss.map (Section.under key)).foldlM addSection (slots ++ [(key, open' inner)]) =
      (ss.foldlM addSection inner).map fun inner => slots ++ [(key, open' inner)] := by
  induction ss generalizing inner with
  | nil => rfl
  | cons s ss ih =>
    obtain ⟨hs, hss⟩ := List.forall_mem_cons.1 hpath
    rw [List.map_cons, List.foldlM_cons, List.foldlM_cons, addSection_under hopen h hs]
    cases addSection inner s with
    | none => rfl
    | some inner => exact ih hss

def values (entries : List (String × Toml)) : Slots :=
  (entries.filter fun e => !hasHeader e.2).map fun e => (e.1, .value e.2)

/-- Lines with new keys are assigned behind what is there. -/
theorem assignAll_lines (entries : List (String × Toml)) (hkeys : (entries.map Prod.fst).Nodup) :
    assignAll (lines entries) [] = some (values entries) := by
  have hall : ∀ (plain : List (String × Toml)) (slots : Slots),
      (slots.map Prod.fst ++ plain.map Prod.fst).Nodup →
        assignAll (plain.map fun e => ([e.1], e.2)) slots =
          some (slots ++ plain.map fun e => (e.1, .value e.2)) := by
    intro plain
    induction plain with
    | nil => simp [assignAll]
    | cons e plain ih =>
      intro slots hkeys
      have hnew : e.1 ∉ slots.map Prod.fst := fun hmem =>
        (List.nodup_append.1 hkeys).2.2 _ hmem e.1 (by simp) rfl
      have hassign : assign true e.2 [e.1] slots = some (slots ++ [(e.1, .value e.2)]) := by
        simp [assign, lookup_new hnew, put_new hnew]
      have hrest := ih (slots ++ [(e.1, .value e.2)]) (by simpa using hkeys)
      rw [assignAll] at hrest ⊢
      rw [List.map_cons, List.foldlM_cons, hassign]
      simpa using hrest
  have hplain := (List.filter_sublist (p := fun e => !hasHeader e.2) (l := entries)).map Prod.fst
  exact hall _ [] (hplain.nodup hkeys)

end Slots

section Written

variable {d : Nat} {v : Toml} {key : String} {entries : List (String × Toml)}

theorem Written.onLine (h : Written d v) (hv : hasHeader v = false) : OnLine v := by
  cases h with
  | str s => exact .str s
  | int h => exact .int h
  | bool b => exact .bool b
  | table => cases hv
  | @tables _ items h =>
    cases items with
    | nil => exact .empty
    | cons => cases hv

theorem isLine_of_mem (h : ∀ e ∈ entries, Written d e.2) : ∀ a ∈ lines entries, IsLine a := by
  intro a ha
  obtain ⟨e, he, rfl⟩ := List.mem_map.1 ha
  obtain ⟨hmem, hheader⟩ := List.mem_filter.1 he
  exact ⟨e.1, rfl, (h e hmem).onLine (by simpa using hheader)⟩

theorem Written.table_of_mem {items : List Toml} (h : Written d (.arr items)) :
    ∀ v ∈ items, ∃ entries, v = .table entries ∧ Written d v := by
  cases h with
  | tables h =>
    intro v hv
    obtain ⟨entries, hentries, rfl⟩ := List.mem_map.1 hv
    exact ⟨entries, rfl, h entries hentries⟩

end Written

section Sections

/-- A section of a table that is nested at most so deep. -/
structure StaysWithin (d : Nat) (s : Section) : Prop where
  path : s.1.path ≠ []
  depth : s.1.path.length ≤ d
  lines : ∀ a ∈ s.2, IsLine a

theorem path_under (key : String) (s : Section) : (s.under key).1.path = key :: s.1.path := by
  obtain ⟨⟨path⟩ | ⟨path⟩, as⟩ := s <;> rfl

theorem StaysWithin.under {d : Nat} {s : Section} (h : StaysWithin d s) (key : String) :
    StaysWithin (d + 1) (s.under key) := by
  refine ⟨?_, ?_, h.lines⟩
  · rw [path_under]
    exact List.cons_ne_nil _ _
  · rw [path_under]
    exact Nat.succ_le_succ h.depth

theorem staysWithin_table {d : Nat} {key : String} {ss : List Section} {header : Header}
    {as : List Assignment} (hheader : header.path = [key]) (has : ∀ a ∈ as, IsLine a)
    (hss : ∀ s ∈ ss, StaysWithin d s) :
    ∀ s ∈ (header, as) :: ss.map (Section.under key), StaysWithin (d + 1) s := by
  refine List.forall_mem_cons.2 ⟨⟨?_, ?_, has⟩, fun s hs => ?_⟩
  · rw [hheader]
    exact List.cons_ne_nil _ _
  · rw [hheader]
    exact Nat.succ_le_succ (Nat.zero_le _)
  · obtain ⟨s, hmem, rfl⟩ := List.mem_map.1 hs
    exact (hss s hmem).under key

mutual

theorem staysWithin_entries : ∀ (entries : List (String × Toml)) {d : Nat},
    (∀ e ∈ entries, Written d e.2) → ∀ s ∈ sectionsOf entries, StaysWithin d s
  | [], _, _ => nofun
  | (key, v) :: rest, _, h => by
    obtain ⟨hv, hrest⟩ := List.forall_mem_cons.1 h
    exact List.forall_mem_append.2
      ⟨staysWithin_entry key v hv, staysWithin_entries rest hrest⟩

theorem staysWithin_entry (key : String) : ∀ (v : Toml) {d : Nat}, Written d v →
    ∀ s ∈ entrySections key v, StaysWithin d s
  | .table entries, _, .table _ h =>
    staysWithin_table rfl (isLine_of_mem h) (staysWithin_entries entries h)
  | .arr items, _, h => staysWithin_elements key items h.table_of_mem
  | .str _, _, _ | .int _, _, _ | .bool _, _, _ => nofun

theorem staysWithin_elements (key : String) : ∀ (items : List Toml) {d : Nat},
    (∀ v ∈ items, ∃ entries, v = .table entries ∧ Written d v) →
      ∀ s ∈ elementSections key items, StaysWithin d s
  | [], _, _ => nofun
  | .table entries :: rest, _, h => by
    obtain ⟨⟨_, -, hv⟩, hrest⟩ := List.forall_mem_cons.1 h
    cases hv with
    | table _ hentries =>
      exact List.forall_mem_append.2
        ⟨staysWithin_table rfl (isLine_of_mem hentries) (staysWithin_entries entries hentries),
          staysWithin_elements key rest hrest⟩
  | .str _ :: _, _, h | .int _ :: _, _, h | .float _ :: _, _, h | .bool _ :: _, _, h
  | .moment _ :: _, _, h | .arr _ :: _, _, h => by
    obtain ⟨_, ⟨⟩, -⟩ := h _ List.mem_cons_self

end

mutual

theorem entriesAreWritable_of : ∀ (entries : List (String × Toml)) {d : Nat},
    (∀ e ∈ entries, Written d e.2) → entriesAreWritable entries
  | [], _, _ => rfl
  | (_, v) :: rest, _, h => by
    obtain ⟨hv, hrest⟩ := List.forall_mem_cons.1 h
    rw [entriesAreWritable, isWritable_of v hv, entriesAreWritable_of rest hrest]
    rfl

theorem isWritable_of : ∀ (v : Toml) {d : Nat}, Written d v → v.isWritable
  | .table entries, _, .table _ h => entriesAreWritable_of entries h
  | .arr items, _, h => areWritable_of items h.table_of_mem
  | .int n, _, .int h => Option.isSome_of_eq_some (show inRange n = some (.int n) from if_pos h)
  | .str _, _, _ | .bool _, _, _ => rfl

theorem areWritable_of : ∀ (items : List Toml) {d : Nat},
    (∀ v ∈ items, ∃ entries, v = .table entries ∧ Written d v) → areWritable items
  | [], _, _ => rfl
  | .table entries :: rest, _, h => by
    obtain ⟨⟨_, -, hv⟩, hrest⟩ := List.forall_mem_cons.1 h
    cases hv with
    | table _ hentries =>
      rw [areWritable, entriesAreWritable_of entries hentries, areWritable_of rest hrest]
      rfl
  | .str _ :: _, _, h | .int _ :: _, _, h | .float _ :: _, _, h | .bool _ :: _, _, h
  | .moment _ :: _, _, h | .arr _ :: _, _, h => by
    obtain ⟨_, ⟨⟩, -⟩ := h _ List.mem_cons_self

end

end Sections

section Contents

mutual

def slotsOf : List (String × Toml) → Slots
  | [] => []
  | (key, v) :: rest => if hasHeader v then (key, slotOf v) :: slotsOf rest else slotsOf rest

def slotOf : Toml → Slot
  | .table entries => .opened .header (values entries ++ slotsOf entries)
  | .arr items => .many (tablesOf items).reverse
  | v => .value v

def tablesOf : List Toml → List Slots
  | [] => []
  | .table entries :: rest => (values entries ++ slotsOf entries) :: tablesOf rest
  | _ :: rest => tablesOf rest

end

theorem nodup_values {entries : List (String × Toml)} (hkeys : (entries.map Prod.fst).Nodup) :
    ((values entries).map Prod.fst ++
      (entries.filter fun e => hasHeader e.2).map Prod.fst).Nodup := by
  have hvalues : (values entries).map Prod.fst =
      (entries.filter fun e => !hasHeader e.2).map Prod.fst := by
    simp [values, Function.comp_def]
  rw [hvalues, ← List.map_append]
  have hperm := List.filter_append_perm (fun e : String × Toml => hasHeader e.2) entries
  exact (((List.perm_append_comm.trans hperm).map Prod.fst).nodup_iff).2 hkeys

/-- The first table of an array is added as if the array were there without tables. -/
theorem addSections_first {key : String} {slots : Slots} (hnew : key ∉ slots.map Prod.fst)
    {items : List Toml} (hne : items ≠ []) {d : Nat}
    (h : ∀ v ∈ items, ∃ entries, v = .table entries ∧ Written d v) :
    (elementSections key items).foldlM addSection (slots ++ [(key, .many [])]) =
      (elementSections key items).foldlM addSection slots := by
  obtain ⟨v, rest, rfl⟩ := List.exists_cons_of_ne_nil hne
  obtain ⟨entries, rfl, -⟩ := h v List.mem_cons_self
  have hsection : addSection (slots ++ [(key, .many [])]) (.element [key], lines entries) =
      addSection slots (.element [key], lines entries) := by
    simp [addSection, atPath, lookup_last hnew, lookup_new hnew, put_last hnew, put_new hnew]
  rw [elementSections, List.cons_append, List.foldlM_cons, List.foldlM_cons, hsection]

mutual

theorem addSections_entries : ∀ (entries : List (String × Toml)) {d : Nat} (slots : Slots),
    (∀ e ∈ entries, Written d e.2) →
      (slots.map Prod.fst ++ (entries.filter fun e => hasHeader e.2).map Prod.fst).Nodup →
        (sectionsOf entries).foldlM addSection slots = some (slots ++ slotsOf entries)
  | [], _, slots, _, _ => by simp [sectionsOf, slotsOf]
  | (key, v) :: rest, d, slots, h, hkeys => by
    obtain ⟨hv, hrest⟩ := List.forall_mem_cons.1 h
    cases hheader : hasHeader v with
    | false =>
      have hempty : entrySections key v = [] := by cases hv.onLine hheader <;> rfl
      rw [sectionsOf, hempty, List.nil_append, slotsOf, if_neg (by simp [hheader])]
      exact addSections_entries rest slots hrest (by simpa [hheader] using hkeys)
    | true =>
      have hnew : key ∉ slots.map Prod.fst := fun hmem =>
        (List.nodup_append.1 hkeys).2.2 _ hmem key (by simp [hheader]) rfl
      rw [sectionsOf, List.foldlM_append, addSections_entry key v slots hv hheader hnew, slotsOf,
        if_pos hheader]
      have hmore := addSections_entries rest (slots ++ [(key, slotOf v)]) hrest
        (by simpa [hheader] using hkeys)
      simpa using hmore

theorem addSections_entry (key : String) : ∀ (v : Toml) {d : Nat} (slots : Slots),
    Written d v → hasHeader v → key ∉ slots.map Prod.fst →
      (entrySections key v).foldlM addSection slots = some (slots ++ [(key, slotOf v)])
  | .table entries, _, slots, .table hkeys h, _, hnew => by
    have hinner := addSections_entries entries (values entries) h (nodup_values hkeys)
    have hown : addSection slots (.table [key], lines entries) =
        some (slots ++ [(key, .opened .header (values entries))]) := by
      simp [addSection, atPath, lookup_new hnew, put_new hnew, assignAll_lines entries hkeys]
    rw [entrySections, List.foldlM_cons, hown]
    exact (addSections_under (.opened .header) hnew
      fun s hs => (staysWithin_entries entries h s hs).path).trans (by rw [hinner]; rfl)
  | .arr items, _, slots, h, hheader, hnew => by
    have hne : items ≠ [] := by simpa [hasHeader] using hheader
    have helements := addSections_elements key items slots [] h.table_of_mem hnew
    rw [addSections_first hnew hne h.table_of_mem, List.append_nil] at helements
    exact helements

theorem addSections_elements (key : String) : ∀ (items : List Toml) {d : Nat} (slots : Slots)
    (earlier : List Slots), (∀ v ∈ items, ∃ entries, v = .table entries ∧ Written d v) →
      key ∉ slots.map Prod.fst →
        (elementSections key items).foldlM addSection (slots ++ [(key, .many earlier)]) =
          some (slots ++ [(key, .many ((tablesOf items).reverse ++ earlier))])
  | [], _, slots, earlier, _, _ => by simp [elementSections, tablesOf]
  | .table entries :: rest, _, slots, earlier, h, hnew => by
    obtain ⟨⟨_, -, hv⟩, hrest⟩ := List.forall_mem_cons.1 h
    cases hv with
    | table hkeys hentries =>
      have hinner := addSections_entries entries (values entries) hentries (nodup_values hkeys)
      have hown : addSection (slots ++ [(key, .many earlier)]) (.element [key], lines entries) =
          some (slots ++ [(key, .many (values entries :: earlier))]) := by
        simp [addSection, atPath, lookup_last hnew, put_last hnew, assignAll_lines entries hkeys]
      have htable : ((sectionsOf entries).map (Section.under key)).foldlM addSection
          (slots ++ [(key, .many (values entries :: earlier))]) =
            some (slots ++ [(key, .many ((values entries ++ slotsOf entries) :: earlier))]) :=
        (addSections_under (.element earlier) hnew
          fun s hs => (staysWithin_entries entries hentries s hs).path).trans (by rw [hinner]; rfl)
      have hmore := addSections_elements key rest slots
        ((values entries ++ slotsOf entries) :: earlier) hrest hnew
      rw [elementSections, List.cons_append, List.foldlM_cons, hown, Option.bind_eq_bind,
        Option.bind_some, List.foldlM_append, htable, Option.bind_eq_bind, Option.bind_some, hmore,
        tablesOf, List.reverse_cons, List.append_assoc]
      rfl
  | .str _ :: _, _, _, _, h, _ | .int _ :: _, _, _, _, h, _ | .float _ :: _, _, _, _, h, _
  | .bool _ :: _, _, _, _, h, _ | .moment _ :: _, _, _, _, h, _ | .arr _ :: _, _, _, _, h, _ => by
    obtain ⟨_, ⟨⟩, -⟩ := h _ List.mem_cons_self

end

theorem slotsOf_eq (entries : List (String × Toml)) : slotsOf entries =
    (entries.filter fun e => hasHeader e.2).map fun e => (e.1, slotOf e.2) := by
  induction entries with
  | nil => rfl
  | cons e entries ih =>
    rw [slotsOf, List.filter_cons, ih]
    split <;> rfl

def readAs (v : Toml) : Toml := if hasHeader v then (slotOf v).finish else v

theorem finishSlots_written (entries : List (String × Toml)) :
    finishSlots (values entries ++ slotsOf entries) =
      ((entries.filter fun e => !hasHeader e.2) ++ entries.filter fun e => hasHeader e.2).map
        fun e => (e.1, readAs e.2) := by
  rw [finishSlots_eq_map, slotsOf_eq, values, List.map_append, List.map_append, List.map_map,
    List.map_map]
  congr 1
  · refine List.map_congr_left fun e he => ?_
    have hheader := (List.mem_filter.1 he).2
    simp only [Bool.not_eq_true'] at hheader
    simp [readAs, hheader, Slot.finish]
  · refine List.map_congr_left fun e he => ?_
    simp [readAs, (List.mem_filter.1 he).2]

theorem same_table {entries : List (String × Toml)} (hkeys : (entries.map Prod.fst).Nodup)
    (h : ∀ e ∈ entries, Same e.2 (readAs e.2)) :
    Same (.table entries) (.table (finishSlots (values entries ++ slotsOf entries))) := by
  refine .table fun key => ?_
  have hperm := List.perm_append_comm.trans
    (List.filter_append_perm (fun e : String × Toml => hasHeader e.2) entries)
  rw [finishSlots_written, lookup_map,
    lookup_perm hperm ((hperm.map Prod.fst).nodup_iff.2 hkeys)]
  cases hv : entries.lookup key with
  | none => exact .none
  | some v =>
    obtain ⟨before, behind, rfl, -⟩ := List.lookup_eq_some_iff.1 hv
    exact .some (h (key, v) (by simp))

theorem OnLine.same {v : Toml} (h : OnLine v) : Same v v := by
  cases h with
  | str s => exact .str s
  | int => exact .int _
  | bool b => exact .bool b
  | empty => exact .arr .nil

mutual

theorem same_entries : ∀ (entries : List (String × Toml)) {d : Nat},
    (∀ e ∈ entries, Written d e.2) → ∀ e ∈ entries, Same e.2 (readAs e.2)
  | [], _, _ => nofun
  | (_, v) :: rest, _, h => by
    obtain ⟨hv, hrest⟩ := List.forall_mem_cons.1 h
    exact List.forall_mem_cons.2 ⟨same_readAs v hv, same_entries rest hrest⟩

theorem same_readAs : ∀ (v : Toml) {d : Nat}, Written d v → Same v (readAs v)
  | .table entries, _, .table hkeys h => same_table hkeys (same_entries entries h)
  | .arr [], _, _ => .arr .nil
  | .arr (v :: rest), _, h => by
    refine .arr ?_
    rw [finishTables_eq_map, List.map_reverse, List.reverse_reverse]
    exact same_items (v :: rest) h.table_of_mem
  | .str s, _, _ => .str s
  | .int n, _, _ => .int n
  | .bool b, _, _ => .bool b

theorem same_items : ∀ (items : List Toml) {d : Nat},
    (∀ v ∈ items, ∃ entries, v = .table entries ∧ Written d v) →
      items.Forall₂ Same ((tablesOf items).map fun t => .table (finishSlots t))
  | [], _, _ => .nil
  | .table entries :: rest, _, h => by
    obtain ⟨⟨_, -, hv⟩, hrest⟩ := List.forall_mem_cons.1 h
    cases hv with
    | table hkeys hentries =>
      exact .cons (same_table hkeys (same_entries entries hentries)) (same_items rest hrest)
  | .str _ :: _, _, h | .int _ :: _, _, h | .float _ :: _, _, h | .bool _ :: _, _, h
  | .moment _ :: _, _, h | .arr _ :: _, _, h => by
    obtain ⟨_, ⟨⟩, -⟩ := h _ List.mem_cons_self

end

/-- A written document is read as the same table. -/
theorem parse?_print? {d : Nat} {entries : List (String × Toml)} (hdepth : d < depthLimit)
    (h : Written d (.table entries)) : ∃ text t, print? (.table entries) = some text ∧
      parse? text = some t ∧ Same (.table entries) t := by
  cases h with
  | @table d _ hkeys h =>
    have hprint : print? (.table entries) = some (document entries) :=
      if_pos (entriesAreWritable_of entries h)
    have hsections : ∀ s ∈ sectionsOf entries, IsSection s := fun s hs =>
      have hs := staysWithin_entries entries h s hs
      ⟨⟨hs.path, by have := hs.depth; omega⟩, hs.lines⟩
    have hread : parse? (document entries) =
        some (.table (finishSlots (values entries ++ slotsOf entries))) := by
      rw [parse?_document (isLine_of_mem h) hsections, ofSections, assignAll_lines entries hkeys]
      simp [addSections_entries entries (values entries) h (nodup_values hkeys)]
    exact ⟨_, _, hprint, hread, same_table hkeys (same_entries entries h)⟩

theorem Format.lossless_own : Format.own.Lossless :=
  ⟨fun _ _ => bounded_parse?, fun _ _ => parse?_print?⟩

end Contents

end SequenceQuery.Toml
