import SequenceQuery.Proofs.TomlFormats
import Mathlib.Tactic.Cases

namespace SequenceQuery.Toml

section Slots

variable {key : String} {slot : Slot} {slots slots' : Slots} {path : List String} {v : Toml}

def BoundedSlots (slots : Slots) : Prop := ∀ e ∈ slots, Bounded e.2.finish

theorem finishSlots_eq_map (slots : Slots) :
    finishSlots slots = slots.map fun e => (e.1, e.2.finish) := by
  induction slots with
  | nil => rfl
  | cons e slots ih => rw [finishSlots, ih, List.map_cons]

theorem finishTables_eq_map (tables : List Slots) :
    finishTables tables = tables.map fun t => .table (finishSlots t) := by
  induction tables with
  | nil => rfl
  | cons t tables ih => rw [finishTables, ih, List.map_cons]

theorem bounded_table_iff : Bounded (.table (finishSlots slots)) ↔ BoundedSlots slots := by
  rw [finishSlots_eq_map]
  refine ⟨fun h e he => ?_, fun h => .table fun e he => ?_⟩
  · exact h.entries _ (List.mem_map_of_mem he)
  · obtain ⟨slot, hslot, rfl⟩ := List.mem_map.1 he
    exact h slot hslot

theorem bounded_opened_iff {how : Opening} :
    Bounded (Slot.opened how slots).finish ↔ BoundedSlots slots := by
  rw [Slot.finish, bounded_table_iff]

theorem bounded_many_iff {tables : List Slots} :
    Bounded (Slot.many tables).finish ↔ ∀ t ∈ tables, BoundedSlots t := by
  rw [Slot.finish, finishTables_eq_map]
  refine ⟨fun h t ht => ?_, fun h => .arr fun v hv => ?_⟩
  · exact bounded_table_iff.1 (h.items _ (List.mem_reverse.2 (List.mem_map_of_mem ht)))
  · obtain ⟨t, ht, rfl⟩ := List.mem_map.1 (List.mem_reverse.1 hv)
    exact bounded_table_iff.2 (h t ht)

theorem BoundedSlots.put (h : BoundedSlots slots) (hslot : Bounded slot.finish) :
    BoundedSlots (put key slot slots) := by
  induction slots with
  | nil => simpa [Toml.put, BoundedSlots] using hslot
  | cons e slots ih =>
    obtain ⟨he, hslots⟩ := List.forall_mem_cons.1 h
    rw [Toml.put]
    split
    · exact List.forall_mem_cons.2 ⟨hslot, hslots⟩
    · exact List.forall_mem_cons.2 ⟨he, ih hslots⟩

theorem BoundedSlots.lookup (h : BoundedSlots slots) (hslot : slots.lookup key = some slot) :
    Bounded slot.finish := by
  obtain ⟨before, behind, rfl, -⟩ := List.lookup_eq_some_iff.1 hslot
  exact h (key, slot) (by simp)

theorem BoundedSlots.nil : BoundedSlots [] := fun _ he => absurd he List.not_mem_nil

theorem BoundedSlots.assign {fits : Bool} (h : BoundedSlots slots) (hv : Bounded v)
    (hassign : assign fits v path slots = some slots') : BoundedSlots slots' := by
  induction path generalizing fits slots slots' with
  | nil => simp [Toml.assign] at hassign
  | cons key rest ih =>
    cases rest with
    | nil =>
      rw [Toml.assign] at hassign
      split at hassign
      · cases hassign
        exact h.put hv
      · cases hassign
    | cons next rest =>
      rw [Toml.assign] at hassign
      case x_2 => simp
      split at hassign
      case h_1 =>
        obtain ⟨inner, hinner, ⟨⟩⟩ := Option.bind_eq_some_iff.1 hassign
        exact h.put (bounded_opened_iff.2 (ih .nil hinner))
      case h_2 inner hslot | h_3 inner hslot =>
        obtain ⟨inner', hinner, ⟨⟩⟩ := Option.bind_eq_some_iff.1 hassign
        exact h.put (bounded_opened_iff.2 (ih (bounded_opened_iff.1 (h.lookup hslot)) hinner))
      case h_4 last earlier hslot =>
        obtain ⟨inner', hinner, ⟨⟩⟩ := Option.bind_eq_some_iff.1 hassign
        obtain ⟨hlast, hearlier⟩ := List.forall_mem_cons.1 (bounded_many_iff.1 (h.lookup hslot))
        exact h.put (bounded_many_iff.2 (List.forall_mem_cons.2 ⟨ih hlast hinner, hearlier⟩))
      case h_5 => cases hassign

theorem BoundedSlots.atPath {change : Option Slot → Option Slot} (h : BoundedSlots slots)
    (hchange : ∀ old slot, (∀ s ∈ old, Bounded s.finish) → change old = some slot →
      Bounded slot.finish)
    (hpath : atPath change path slots = some slots') : BoundedSlots slots' := by
  induction path generalizing slots slots' with
  | nil => simp [Toml.atPath] at hpath
  | cons key rest ih =>
    cases rest with
    | nil =>
      obtain ⟨slot, hslot, ⟨⟩⟩ := Option.bind_eq_some_iff.1 hpath
      exact h.put (hchange _ _ (fun s hs => h.lookup hs) hslot)
    | cons next rest =>
      rw [Toml.atPath] at hpath
      case x_2 => simp
      split at hpath
      case h_1 =>
        obtain ⟨inner, hinner, ⟨⟩⟩ := Option.bind_eq_some_iff.1 hpath
        exact h.put (bounded_opened_iff.2 (ih .nil hinner))
      case h_2 how inner hslot =>
        obtain ⟨inner', hinner, ⟨⟩⟩ := Option.bind_eq_some_iff.1 hpath
        exact h.put (bounded_opened_iff.2 (ih (bounded_opened_iff.1 (h.lookup hslot)) hinner))
      case h_3 last earlier hslot =>
        obtain ⟨inner', hinner, ⟨⟩⟩ := Option.bind_eq_some_iff.1 hpath
        obtain ⟨hlast, hearlier⟩ := List.forall_mem_cons.1 (bounded_many_iff.1 (h.lookup hslot))
        exact h.put (bounded_many_iff.2 (List.forall_mem_cons.2 ⟨ih hlast hinner, hearlier⟩))
      case h_4 => cases hpath

theorem BoundedSlots.assignAll {assignments : List Assignment} (h : BoundedSlots slots)
    (hassignments : ∀ a ∈ assignments, Bounded a.2)
    (hassign : assignAll assignments slots = some slots') : BoundedSlots slots' := by
  induction assignments generalizing slots with
  | nil =>
    cases hassign
    exact h
  | cons a assignments ih =>
    obtain ⟨ha, hmore⟩ := List.forall_mem_cons.1 hassignments
    rw [Toml.assignAll, List.foldlM_cons] at hassign
    obtain ⟨inner, hinner, hassign⟩ := Option.bind_eq_some_iff.1 hassign
    exact ih (h.assign ha hinner) hmore hassign

theorem BoundedSlots.addSection {s : Section} (h : BoundedSlots slots)
    (hassignments : ∀ a ∈ s.2, Bounded a.2) (hadd : addSection slots s = some slots') :
    BoundedSlots slots' := by
  obtain ⟨header, assignments⟩ := s
  cases header with
  | table path =>
    refine h.atPath (fun old slot hold hslot => ?_) hadd
    split at hslot
    case h_1 =>
      obtain ⟨inner, hinner, rfl⟩ := Option.map_eq_some_iff.1 hslot
      exact bounded_opened_iff.2 (BoundedSlots.nil.assignAll hassignments hinner)
    case h_2 inner =>
      obtain ⟨inner', hinner, rfl⟩ := Option.map_eq_some_iff.1 hslot
      have hold := bounded_opened_iff.1 (hold _ rfl)
      exact bounded_opened_iff.2 (hold.assignAll hassignments hinner)
    case h_3 => cases hslot
  | element path =>
    refine h.atPath (fun old slot hold hslot => ?_) hadd
    split at hslot
    case h_1 =>
      obtain ⟨inner, hinner, rfl⟩ := Option.map_eq_some_iff.1 hslot
      exact bounded_many_iff.2 (List.forall_mem_singleton.2
        (BoundedSlots.nil.assignAll hassignments hinner))
    case h_2 tables =>
      obtain ⟨inner, hinner, rfl⟩ := Option.map_eq_some_iff.1 hslot
      exact bounded_many_iff.2 (List.forall_mem_cons.2
        ⟨BoundedSlots.nil.assignAll hassignments hinner, bounded_many_iff.1 (hold _ rfl)⟩)
    case h_3 => cases hslot

theorem BoundedSlots.addSections {ss : List Section} (h : BoundedSlots slots)
    (hassignments : ∀ s ∈ ss, ∀ a ∈ s.2, Bounded a.2)
    (hadd : ss.foldlM Toml.addSection slots = some slots') : BoundedSlots slots' := by
  induction ss generalizing slots with
  | nil =>
    cases hadd
    exact h
  | cons s ss ih =>
    obtain ⟨hs, hmore⟩ := List.forall_mem_cons.1 hassignments
    obtain ⟨inner, hinner, hadd⟩ := Option.bind_eq_some_iff.1 hadd
    exact ih (h.addSection hs hinner) hmore hadd

end Slots

section Reading

variable {cs rest : List Char} {v : Toml}

theorem bounded_inRange {n : Int} (h : inRange n = some v) : Bounded v := by
  rw [inRange] at h
  split at h
  case isTrue hn =>
    cases h
    exact .int hn
  case isFalse => cases h

theorem bounded_wordValue {w : List Char} (h : wordValue w = some v) : Bounded v := by
  unfold wordValue at h
  split at h
  case h_1 | h_2 =>
    cases h
    exact .bool _
  case h_3 | h_4 | h_5 =>
    obtain ⟨n, -, hn⟩ := Option.bind_eq_some_iff.1 h
    exact bounded_inRange hn
  case h_6 =>
    simp only at h
    split at h
    · exact bounded_inRange h
    · split at h
      · cases h
        exact .float _
      · split at h
        · cases h
          exact .moment _
        · cases h

/-- With less fuel nothing else is read, so the induction is on the fuel for all three readers at
once. -/
theorem bounded_readers (fuel : Nat) :
    (∀ depth cs v rest, value fuel depth cs = some (v, rest) → Bounded v) ∧
    (∀ depth cs vs rest, items fuel depth cs = some (vs, rest) → ∀ v ∈ vs, Bounded v) ∧
    ∀ depth cs as rest, inlineAssignments fuel depth cs = some (as, rest) →
      ∀ a ∈ as, Bounded a.2 := by
  induction fuel with
  | zero => simp [value, items, inlineAssignments]
  | succ fuel ih =>
    obtain ⟨hvalue, hitems, hentries⟩ := ih
    refine ⟨fun depth cs v rest h => ?_, fun depth cs vs rest h => ?_, fun depth cs as rest h => ?_⟩
    · unfold value at h
      split at h
      case h_1 | h_2 =>
        obtain ⟨⟨s, rest⟩, -, ⟨⟩⟩ := Option.bind_eq_some_iff.1 h
        exact .str s
      case h_3 =>
        split at h
        · cases h
        split at h
        · cases h
          exact .arr (by simp)
        · obtain ⟨⟨vs, rest⟩, hvs, ⟨⟩⟩ := Option.bind_eq_some_iff.1 h
          exact .arr (hitems _ _ _ _ hvs)
      case h_4 =>
        split at h
        · cases h
        split at h
        · cases h
          exact .table (by simp)
        · obtain ⟨⟨as, rest⟩, has, h⟩ := Option.bind_eq_some_iff.1 h
          obtain ⟨slots, hslots, ⟨⟩⟩ := Option.bind_eq_some_iff.1 h
          exact bounded_table_iff.2 (BoundedSlots.nil.assignAll (hentries _ _ _ _ has) hslots)
      case h_5 =>
        obtain ⟨w, hw, ⟨⟩⟩ := Option.bind_eq_some_iff.1 h
        exact bounded_wordValue hw
    · rw [items] at h
      obtain ⟨⟨v, behind⟩, hv, h⟩ := Option.bind_eq_some_iff.1 h
      have hv := hvalue _ _ _ _ hv
      simp only at h
      split at h
      case h_1 =>
        cases h
        exact List.forall_mem_singleton.2 hv
      case h_2 =>
        split at h
        · cases h
          exact List.forall_mem_singleton.2 hv
        · obtain ⟨⟨vs, rest⟩, hvs, ⟨⟩⟩ := Option.bind_eq_some_iff.1 h
          exact List.forall_mem_cons.2 ⟨hv, hitems _ _ _ _ hvs⟩
      case h_3 => cases h
    · rw [inlineAssignments] at h
      obtain ⟨⟨path, behind⟩, -, h⟩ := Option.bind_eq_some_iff.1 h
      simp only at h
      split at h
      case h_2 => cases h
      obtain ⟨⟨v, behind⟩, hv, h⟩ := Option.bind_eq_some_iff.1 h
      have hv := hvalue _ _ _ _ hv
      simp only at h
      split at h
      case h_1 =>
        cases h
        exact List.forall_mem_singleton.2 hv
      case h_2 =>
        obtain ⟨⟨as, rest⟩, has, ⟨⟩⟩ := Option.bind_eq_some_iff.1 h
        exact List.forall_mem_cons.2 ⟨hv, hentries _ _ _ _ has⟩
      case h_3 => cases h

theorem bounded_assignments {fuel : Nat} {as : List Assignment}
    (h : assignments fuel cs = some (as, rest)) : ∀ a ∈ as, Bounded a.2 := by
  induction fuel generalizing cs as rest with
  | zero => cases h
  | succ fuel ih =>
    rw [assignments] at h
    split at h
    case h_1 | h_2 =>
      cases h
      simp
    case h_3 =>
      obtain ⟨⟨a, behind⟩, ha, h⟩ := Option.bind_eq_some_iff.1 h
      obtain ⟨⟨as, rest⟩, has, ⟨⟩⟩ := Option.bind_eq_some_iff.1 h
      refine List.forall_mem_cons.2 ⟨?_, ih has⟩
      rw [assignment] at ha
      obtain ⟨⟨path, behind⟩, -, ha⟩ := Option.bind_eq_some_iff.1 ha
      simp only at ha
      split at ha
      case h_2 => cases ha
      obtain ⟨⟨v, behind⟩, hv, ha⟩ := Option.bind_eq_some_iff.1 ha
      obtain ⟨behind, -, ⟨⟩⟩ := Option.bind_eq_some_iff.1 ha
      exact (bounded_readers _).1 _ _ _ _ hv

theorem bounded_sections {fuel : Nat} {ss : List Section}
    (h : sections fuel cs = some ss) : ∀ s ∈ ss, ∀ a ∈ s.2, Bounded a.2 := by
  induction fuel generalizing cs ss with
  | zero => cases h
  | succ fuel ih =>
    unfold sections at h
    split at h
    case h_1 =>
      cases h
      simp
    case h_2 =>
      obtain ⟨⟨header, behind⟩, -, h⟩ := Option.bind_eq_some_iff.1 h
      obtain ⟨⟨body, behind⟩, hbody, h⟩ := Option.bind_eq_some_iff.1 h
      obtain ⟨ss, hss, ⟨⟩⟩ := Option.bind_eq_some_iff.1 h
      exact List.forall_mem_cons.2 ⟨bounded_assignments hbody, ih hss⟩

/-- Every integer of a document that is read fits into 64 bits. -/
theorem bounded_parse? {text : String} (h : parse? text = some v) : Bounded v := by
  obtain ⟨⟨top, rest⟩, htop, h⟩ := Option.bind_eq_some_iff.1 h
  obtain ⟨ss, hss, h⟩ := Option.bind_eq_some_iff.1 h
  obtain ⟨slots, hslots, h⟩ := Option.bind_eq_some_iff.1 h
  obtain ⟨all, hall, ⟨⟩⟩ := Option.bind_eq_some_iff.1 h
  have htop : BoundedSlots slots := BoundedSlots.nil.assignAll (bounded_assignments htop) hslots
  exact bounded_table_iff.2 (htop.addSections (bounded_sections hss) hall)

end Reading

end SequenceQuery.Toml
