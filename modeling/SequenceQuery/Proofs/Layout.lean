import SequenceQuery.Expr.Paging
import SequenceQuery.Expr.Slots
import SequenceQuery.Proofs.Skeleton
import Mathlib.Data.List.Nodup

namespace SequenceQuery

def Operator.pages : Operator → Bool
  | .skip | .take | .segment => true
  | _ => false

namespace Skeleton

def isPagingStep : Skeleton → Bool
  | .call .skip [_, .const .int] | .call .take [_, .const .int] => true
  | _ => false

/-- How many slots a place takes, and whether a paging marker may stand there. -/
def mark : Skeleton → Nat × Bool
  | .const _ => (1, false)
  | .segment => (2, false)
  | .call .segment (_ :: .segment :: _) => (0, true)
  | k => (0, k.isPagingStep)

mutual

def marks : Skeleton → List (Nat × Bool)
  | k@(.entity _) | k@(.bound _) | k@(.free _) | k@(.const _) | k@.segment => [k.mark]
  | k@(.call _ args) | k@(.function _ args) => k.mark :: marksOfList args
  | k@(.lambda _ body) => k.mark :: body.marks
  | k@(.member target _) => k.mark :: target.marks
  | k@(.binary _ left right) => k.mark :: (left.marks ++ right.marks)
  | k@(.unary _ operand) => k.mark :: operand.marks
  | k@(.object fields) => k.mark :: marksOfFields fields
  | k@(.conditional test ifTrue ifFalse) =>
    k.mark :: (test.marks ++ (ifTrue.marks ++ ifFalse.marks))

def marksOfList : List Skeleton → List (Nat × Bool)
  | [] => []
  | k :: rest => k.marks ++ marksOfList rest

def marksOfFields : List (String × Skeleton) → List (Nat × Bool)
  | [] => []
  | (_, k) :: rest => k.marks ++ marksOfFields rest

end

end Skeleton

namespace Expr

theorem isPagingStep_eq (σ : List String) (e : Expr) :
    e.isPagingStep = (e.skeletonIn σ).isPagingStep := by
  cases e with
  | call id op args =>
    rcases args with _ | ⟨a, _ | ⟨b, _ | ⟨c, rest⟩⟩⟩
    · cases op <;> rfl
    · cases op <;> rfl
    · cases b with
      | const id v => cases op <;> cases v <;> rfl
      | param id name =>
        simp only [skeletonIn, skeletonsIn]
        cases lastIndex? name σ <;> cases op <;> rfl
      | _ => cases op <;> rfl
    · cases op <;> simp [isPagingStep, skeletonIn, skeletonsIn, Skeleton.isPagingStep]
  | param id name => rw [skeletonIn]; cases lastIndex? name σ <;> rfl
  | _ => rfl

def mark (e : Expr) : Nat × Bool := (e.ownValues.length, e.asMarker?.isSome)

theorem isSome_asMarker? (id : NodeId) {op : Operator} (args : List Expr) (h : op ≠ .segment) :
    (call id op args).asMarker?.isSome = (call id op args).isPagingStep := by
  unfold asMarker?
  split
  case h_1 heq => simp_all
  case h_2 => cases hstep : (call id op args).isPagingStep <;> simp

theorem mark_eq (σ : List String) (e : Expr) : e.mark = (e.skeletonIn σ).mark := by
  cases e with
  | call id op args =>
    cases op with
    | segment =>
      rcases args with _ | ⟨a, _ | ⟨b, rest⟩⟩
      · rfl
      · rfl
      · cases b with
        | param _ name =>
          simp only [skeletonIn, skeletonsIn]
          cases lastIndex? name σ <;> rfl
        | _ => rfl
    | _ =>
      rw [mark, isSome_asMarker? id args (by simp), isPagingStep_eq σ]
      rfl
  | param id name =>
    rw [skeletonIn]
    cases lastIndex? name σ <;> rfl
  | _ => rfl

mutual

theorem marks_eq (σ : List String) : ∀ e : Expr, e.nodes.map mark = (e.skeletonIn σ).marks
  | .entity .. | .const .. | .segment .. => rfl
  | .param id name => by
    rw [skeletonIn]
    cases lastIndex? name σ <;> rfl
  | .call id op args => by
    simp only [skeletonIn, nodes, Skeleton.marks, List.map_cons, marksOfList_eq σ args,
      mark_eq σ (.call id op args)]
  | .function _ _ args => by
    simp only [skeletonIn, nodes, Skeleton.marks, List.map_cons, marksOfList_eq σ args]
    rfl
  | .lambda _ params body => by
    simp only [skeletonIn, nodes, Skeleton.marks, List.map_cons, marks_eq (σ ++ params) body]
    rfl
  | .member _ operand _ | .unary _ _ operand => by
    simp only [skeletonIn, nodes, Skeleton.marks, List.map_cons, marks_eq σ operand]
    rfl
  | .binary _ _ left right => by
    simp only [skeletonIn, nodes, Skeleton.marks, List.map_cons, List.map_append, marks_eq σ left,
      marks_eq σ right]
    rfl
  | .object _ fields => by
    simp only [skeletonIn, nodes, Skeleton.marks, List.map_cons, marksOfFields_eq σ fields]
    rfl
  | .conditional _ test ifTrue ifFalse => by
    simp only [skeletonIn, nodes, Skeleton.marks, List.map_cons, List.map_append, marks_eq σ test,
      marks_eq σ ifTrue, marks_eq σ ifFalse]
    rfl

theorem marksOfList_eq (σ : List String) : ∀ es : List Expr,
    (nodesOfList es).map mark = Skeleton.marksOfList (skeletonsIn σ es)
  | [] => rfl
  | e :: rest => by
    simp only [nodesOfList, skeletonsIn, Skeleton.marksOfList, List.map_append, marks_eq σ e,
      marksOfList_eq σ rest]

theorem marksOfFields_eq (σ : List String) : ∀ fields : List (String × Expr),
    (nodesOfFields fields).map mark = Skeleton.marksOfFields (fieldSkeletonsIn σ fields)
  | [] => rfl
  | (_, e) :: rest => by
    simp only [nodesOfFields, fieldSkeletonsIn, Skeleton.marksOfFields, List.map_append,
      marks_eq σ e, marksOfFields_eq σ rest]

end

theorem findSome?_cons_eq_or {α β : Type} (f : α → Option β) (a : α) (as : List α) :
    (a :: as).findSome? f = (f a).or (as.findSome? f) := by
  rw [List.findSome?_cons]
  cases f a <;> rfl

mutual

theorem marker?_eq_findSome? : ∀ e : Expr, e.marker? = e.nodes.findSome? asMarker?
  | .entity .. | .param .. | .const .. | .segment .. => by simp [marker?, nodes]
  | .call _ _ args | .function _ _ args => by
    rw [marker?, nodes, findSome?_cons_eq_or, firstMarker?_eq_findSome? args]
  | .lambda _ _ operand | .member _ operand _ | .unary _ _ operand => by
    rw [marker?, nodes, findSome?_cons_eq_or, operand.marker?_eq_findSome?]
  | .binary _ _ left right => by
    rw [marker?, nodes, findSome?_cons_eq_or, List.findSome?_append, left.marker?_eq_findSome?,
      right.marker?_eq_findSome?]
  | .object _ fields => by
    rw [marker?, nodes, findSome?_cons_eq_or, firstFieldMarker?_eq_findSome? fields]
  | .conditional _ test ifTrue ifFalse => by
    rw [marker?, nodes, findSome?_cons_eq_or, List.findSome?_append, List.findSome?_append,
      test.marker?_eq_findSome?, ifTrue.marker?_eq_findSome?, ifFalse.marker?_eq_findSome?]

theorem firstMarker?_eq_findSome? : ∀ es : List Expr,
    firstMarker? es = (nodesOfList es).findSome? asMarker?
  | [] => rfl
  | e :: rest => by
    simp [firstMarker?, nodesOfList, e.marker?_eq_findSome?, firstMarker?_eq_findSome? rest]

theorem firstFieldMarker?_eq_findSome? : ∀ fields : List (String × Expr),
    firstFieldMarker? fields = (nodesOfFields fields).findSome? asMarker?
  | [] => rfl
  | (_, e) :: rest => by
    simp [firstFieldMarker?, nodesOfFields, e.marker?_eq_findSome?,
      firstFieldMarker?_eq_findSome? rest]

end

/-- What a query knows of its nodes by their identities, in pre-order. -/
def layout (e : Expr) : List (Option Nat × Bool) :=
  e.nodes.map fun node => (e.slot? node.id, e.marker?.map (fun m => m.call.id) = some node.id)

def slotsOfWidths (next : Nat) : List Nat → List (Option Nat)
  | [] => []
  | 0 :: rest => none :: slotsOfWidths next rest
  | width :: rest => some next :: slotsOfWidths (next + width) rest

def firstFlag : List Bool → List Bool
  | [] => []
  | true :: rest => true :: rest.map fun _ => false
  | false :: rest => false :: firstFlag rest

theorem mem_slotsFrom {next : Nat} {ns : List Expr} {entry : NodeId × Nat}
    (h : entry ∈ slotsFrom next ns) : entry.1 ∈ ns.map id := by
  induction ns generalizing next with
  | nil => simp [slotsFrom] at h
  | cons e ns ih =>
    rw [slotsFrom] at h
    split at h
    · exact List.mem_cons_of_mem _ (ih h)
    · rcases List.mem_cons.1 h with rfl | h
      · exact List.mem_cons_self
      · exact List.mem_cons_of_mem _ (ih h)

theorem find?_slotsFrom_eq_none {next : Nat} {ns : List Expr} {i : NodeId}
    (h : i ∉ ns.map id) : (slotsFrom next ns).reverse.find? (fun entry => entry.1 == i) = none := by
  rw [List.find?_eq_none]
  rintro entry hmem heq
  exact h (eq_of_beq heq ▸ mem_slotsFrom (List.mem_reverse.1 hmem))

theorem slots_of_nodup {ns : List Expr} (h : (ns.map id).Nodup) (next : Nat) :
    ns.map (fun n =>
      ((slotsFrom next ns).reverse.find? fun entry => entry.1 == n.id).map Prod.snd) =
    slotsOfWidths next (ns.map fun n => n.ownValues.length) := by
  induction ns generalizing next with
  | nil => rfl
  | cons e ns ih =>
    rw [List.map_cons, List.nodup_cons] at h
    obtain ⟨hmem, hnodup⟩ := h
    rw [List.map_cons, List.map_cons, slotsFrom]
    cases hvalues : e.ownValues with
    | nil =>
      rw [find?_slotsFrom_eq_none hmem, ih hnodup]
      rfl
    | cons v values =>
      have later : ∀ n ∈ ns,
          ((e.id, next) :: slotsFrom (next + (v :: values).length) ns).reverse.find?
              (fun entry => entry.1 == n.id) =
            (slotsFrom (next + (v :: values).length) ns).reverse.find?
              fun entry => entry.1 == n.id := by
        intro n hn
        have hne : e.id ≠ n.id := fun heq => hmem (heq ▸ List.mem_map_of_mem hn)
        rw [List.reverse_cons, List.find?_append]
        simp [hne]
      rw [List.reverse_cons, List.find?_append, find?_slotsFrom_eq_none hmem]
      simp only [List.reverse_cons] at later
      rw [List.map_congr_left fun n hn => by rw [later n hn], ih hnodup]
      simp [slotsOfWidths]

theorem call_of_asMarker? {e : Expr} {m : Marker} (h : e.asMarker? = some m) : m.call = e := by
  unfold asMarker? at h
  split at h
  · rw [← Option.some.inj h]
  · split at h
    · rw [← Option.some.inj h]
    · cases h

theorem markers_of_nodup {ns : List Expr} (h : (ns.map id).Nodup) :
    ns.map (fun n => decide ((ns.findSome? asMarker?).map (fun m => m.call.id) = some n.id)) =
      firstFlag (ns.map fun n => n.asMarker?.isSome) := by
  induction ns with
  | nil => rfl
  | cons e ns ih =>
    rw [List.map_cons, List.nodup_cons] at h
    obtain ⟨hmem, hnodup⟩ := h
    rw [List.map_cons, List.map_cons, findSome?_cons_eq_or]
    cases hmarker : e.asMarker? with
    | none =>
      have absent : (ns.findSome? asMarker?).map (fun m => m.call.id) ≠ some e.id := by
        intro heq
        obtain ⟨m, hm, hid⟩ := Option.map_eq_some_iff.1 heq
        obtain ⟨n, hn, hnm⟩ := List.exists_of_findSome?_eq_some hm
        rw [call_of_asMarker? hnm] at hid
        exact hmem (hid ▸ List.mem_map_of_mem hn)
      rw [Option.none_or, ih hnodup, decide_eq_false absent]
      rfl
    | some m =>
      have later : ∀ n ∈ ns, decide (some e.id = some n.id) = false := by
        intro n hn
        refine decide_eq_false fun heq => hmem ?_
        exact Option.some.inj heq ▸ List.mem_map_of_mem hn
      rw [Option.some_or, Option.map_some, call_of_asMarker? hmarker, List.map_congr_left later]
      simp [firstFlag]

/-- Where no node is shared the skeleton decides the layout. -/
theorem layout_eq_of_skeleton {e e' : Expr} (h : e.Unshared) (h' : e'.Unshared)
    (hk : e.skeleton = e'.skeleton) : e.layout = e'.layout := by
  have unshared : ∀ e : Expr, e.Unshared → e.layout =
      (slotsOfWidths 0 (e.skeleton.marks.map Prod.fst)).zip
        (firstFlag (e.skeleton.marks.map Prod.snd)) := by
    intro e h
    rw [skeleton, ← marks_eq, List.map_map, List.map_map]
    have hslots := slots_of_nodup h 0
    have hmarkers := markers_of_nodup h
    rw [← marker?_eq_findSome?] at hmarkers
    refine Eq.trans ?_ (congr (congrArg List.zip hslots) hmarkers)
    rw [List.zip_map']
    rfl
  rw [unshared e h, unshared e' h', hk]

/-- Nodes of one identity are one node. -/
def Identified (e : Expr) : Prop := ∀ m ∈ e.nodes, ∀ n ∈ e.nodes, m.id = n.id → m = n

theorem Unshared.identified {e : Expr} (h : e.Unshared) : e.Identified :=
  fun _ hm _ hn hid => List.inj_on_of_nodup_map h hm hn hid

/-- Only a call that pages is the paging marker. -/
theorem pages_of_marker {e : Expr} (hid : e.Identified) {i : NodeId} {op : Operator} {args : List Expr}
    (hcall : .call i op args ∈ e.nodes) (h : (e.marker?.map fun m => m.call.id) = some i) :
    op.pages = true := by
  obtain ⟨m, hm, rfl⟩ := Option.map_eq_some_iff.1 h
  rw [marker?_eq_findSome?] at hm
  obtain ⟨n, hn, hnm⟩ := List.exists_of_findSome?_eq_some hm
  have hself : n = .call m.call.id op args := hid n hn _ hcall (by rw [call_of_asMarker? hnm]; rfl)
  rw [hself] at hnm
  cases op <;> first | rfl | cases hnm

end Expr

end SequenceQuery
