import SequenceQuery.Form.Rows
import SequenceQuery.Proofs.Quoted
import Mathlib.Order.Basic

namespace SequenceQuery

def labelAt (k : Nat) : String := "t" ++ toString k

theorem labelAt_inj {j k : Nat} (h : labelAt j = labelAt k) : j = k := by
  have hlist := congrArg String.toList h
  simp only [labelAt, String.toList_append, List.append_cancel_left_eq] at hlist
  exact Text.Hex.toDigits_inj (b := 10) (by decide) (by decide)
    (by simpa [Nat.toString_eq_ofList_toDigits] using hlist)

instance : LE Progress :=
  ⟨fun p q => p.nextLabel ≤ q.nextLabel ∧ (p.segmentUsed = true → q.segmentUsed = true)⟩

instance : Preorder Progress where
  le_refl _ := ⟨Nat.le_refl _, id⟩
  le_trans _ _ _ h h' := ⟨Nat.le_trans h.1 h'.1, fun hp => h'.2 (h.2 hp)⟩

/-- Labels from the first progress on, given out before the second. -/
def Progress.GivesOut (start stop : Progress) (label : String) : Prop :=
  ∃ k, start.nextLabel ≤ k ∧ k < stop.nextLabel ∧ label = labelAt k

variable {α β : Type}

namespace Build

variable {p q r : Progress} {a : α} {b : β} {x : Build α}

/-- What an attempt has come to is what its parts have come to, one after the other. -/
theorem run_bind_ok {f : α → Build β} : (x >>= f).run p = .ok (b, r) ↔
    ∃ a q, x.run p = .ok (a, q) ∧ (f a).run q = .ok (b, r) := by
  rw [StateT.run_bind]
  cases x.run p with
  | error e => exact ⟨nofun, nofun⟩
  | ok found =>
    constructor
    · exact fun h => ⟨found.1, found.2, rfl, h⟩
    · rintro ⟨a, q, hx, h⟩
      rwa [Except.ok.inj hx]

theorem run_lift_ok {x : Except Failure α} :
    (liftM x : Build α).run p = .ok (a, q) ↔ x = .ok a ∧ q = p := by
  cases x with
  | error e => exact ⟨nofun, nofun⟩
  | ok b =>
    constructor
    · intro h
      cases h
      exact ⟨rfl, rfl⟩
    · rintro ⟨h, rfl⟩
      cases h
      rfl

theorem run_pure_ok {a' : α} : (pure a' : Build α).run p = .ok (a, q) ↔ a' = a ∧ q = p := by
  constructor
  · intro h
    cases h
    exact ⟨rfl, rfl⟩
  · rintro ⟨rfl, rfl⟩
    rfl

theorem run_freshLabel_ok {label : String} : freshLabel.run p = .ok (label, q) ↔
    label = labelAt p.nextLabel ∧ q = { p with nextLabel := p.nextLabel + 1 } := by
  constructor
  · intro h
    cases h
    exact ⟨rfl, rfl⟩
  · rintro ⟨rfl, rfl⟩
    rfl

end Build

def Builds (start : Progress) (x : Build α) (P : Progress → α → Prop) : Prop :=
  ∀ a q, x.run start = .ok (a, q) → start ≤ q ∧ P q a

namespace Builds

variable {p : Progress} {x : Build α} {P P' : Progress → α → Prop} {Q : Progress → β → Prop}

theorem pure {a : α} (h : P p a) : Builds p (pure a) P := by
  intro b q hrun
  cases hrun
  exact ⟨le_rfl, h⟩

theorem bind {f : α → Build β} (h : Builds p x P) (hf : ∀ q a, p ≤ q → P q a → Builds q (f a) Q) :
    Builds p (x >>= f) Q := by
  intro b r hrun
  rw [StateT.run_bind] at hrun
  cases hx : x.run p with
  | error e =>
    rw [hx] at hrun
    cases hrun
  | ok found =>
    obtain ⟨a, q⟩ := found
    rw [hx] at hrun
    obtain ⟨hpq, ha⟩ := h a q hx
    obtain ⟨hqr, hb⟩ := hf q a hpq ha b r hrun
    exact ⟨hpq.trans hqr, hb⟩

theorem imp (h : Builds p x P) (hP : ∀ q a, p ≤ q → P q a → P' q a) : Builds p x P' := by
  intro a q hrun
  obtain ⟨hpq, ha⟩ := h a q hrun
  exact ⟨hpq, hP q a hpq ha⟩

theorem and (h : Builds p x P) (h' : Builds p x P') : Builds p x fun q a => P q a ∧ P' q a := by
  intro a q hrun
  exact ⟨(h a q hrun).1, (h a q hrun).2, (h' a q hrun).2⟩

/-- What holds of a result holds of it as the result of this attempt. -/
theorem traced (h : Builds p x P) : Builds p x fun q a => P q a ∧ x.run p = .ok (a, q) :=
  fun a q hrun => ⟨(h a q hrun).1, (h a q hrun).2, hrun⟩

theorem lift {x : Except Failure α} (h : ∀ a, x = .ok a → P p a) : Builds p (liftM x) P := by
  intro a q hrun
  cases x with
  | error e => cases hrun
  | ok b =>
    cases hrun
    exact ⟨le_rfl, h a rfl⟩

theorem check {x : Except Failure α} {f : α → Build β} (h : ∀ a, x = .ok a → Builds p (f a) Q) :
    Builds p (liftM x >>= f) Q := by
  intro b q hrun
  cases x with
  | error e => cases hrun
  | ok a => exact h a rfl b q hrun

theorem throw (e : Failure) : Builds p (throw e : Build α) P := by
  intro a q hrun
  cases hrun

theorem unsupported (node : Expr) (reason : Unsupported) :
    Builds p (liftM (unsupported node reason : Except Failure α)) P := by
  intro a q hrun
  cases hrun

theorem refused (node : Expr) (reason : Unsupported) {f : α → Build β} :
    Builds p (liftM (SequenceQuery.unsupported node reason : Except Failure α) >>= f) Q := by
  intro a q hrun
  cases hrun

theorem freshLabel : Builds p freshLabel fun q label =>
    label = labelAt p.nextLabel ∧ q.nextLabel = p.nextLabel + 1 := by
  intro label q hrun
  cases hrun
  exact ⟨⟨Nat.le_succ _, id⟩, rfl, rfl⟩

theorem useSegment : Builds p (modify fun p => { p with segmentUsed := true } : Build PUnit)
    fun q _ => q.segmentUsed = true := by
  intro a q hrun
  cases hrun
  exact ⟨⟨Nat.le_refl _, fun _ => rfl⟩, rfl⟩

end Builds

end SequenceQuery
