import SequenceQuery.Proofs.Quoted
import SequenceQuery.Proofs.Skeleton
import Mathlib.Data.List.Nodup

namespace SequenceQuery

/-- What the text of a skeleton starts with, up to its first bracket or quote. -/
inductive Tag
  | entity
  | call (op : Operator)
  | lambda (arity : Nat)
  | bound (position : Nat)
  | free
  | member
  | const (kind : Kind)
  | segment
  | binary (op : BinaryOp)
  | unary (op : UnaryOp)
  | function
  | object
  | conditional
  deriving DecidableEq

namespace Tag

def text : Tag → List Char
  | .entity => ['E']
  | .call op => op.name.toList
  | .lambda arity => 'L' :: Nat.toDigits 10 arity
  | .bound position => '$' :: Nat.toDigits 10 position
  | .free => ['?']
  | .member => ['M']
  | .const kind => '#' :: kind.name.toList
  | .segment => '#' :: "segment".toList
  | .binary op => "B:".toList ++ op.name.toList
  | .unary op => "U:".toList ++ op.name.toList
  | .function => ['F']
  | .object => ['N']
  | .conditional => ['C']

def fixed : List Tag :=
  [.entity, .free, .member, .segment, .function, .object, .conditional] ++
    Operator.everyOperator.map .call ++ BinaryOp.everyOp.map .binary ++
    [UnaryOp.not, .negate].map .unary ++
    [Kind.null, .bool, .int, .float, .text].map .const

theorem fixed_or_numbered (t : Tag) : t ∈ fixed ∨ ∃ n, t = .lambda n ∨ t = .bound n := by
  cases t with
  | lambda n => exact .inr ⟨n, .inl rfl⟩
  | bound n => exact .inr ⟨n, .inr rfl⟩
  | call op => cases op <;> exact .inl (by decide)
  | binary op => cases op <;> exact .inl (by decide)
  | unary op => cases op <;> exact .inl (by decide)
  | const kind => cases kind <;> exact .inl (by decide)
  | _ => exact .inl (by decide)

def isPlain (c : Char) : Bool := c ∉ ['"', '(', ')', ',', '\x7b', '\x7d']

theorem fixed_text {t : Tag} (ht : t ∈ fixed) {c : Char} (hc : c ∈ t.text) :
    isPlain c ∧ ¬ c.isDigit := by
  have table : (fixed.all fun t => t.text.all fun c => isPlain c && !c.isDigit) = true := by
    decide +kernel
  have h := List.all_eq_true.1 (List.all_eq_true.1 table t ht) c hc
  rwa [Bool.and_eq_true, Bool.not_eq_true', ← Bool.not_eq_true] at h

theorem fixed_nodup : (fixed.map text).Nodup := by decide +kernel

theorem isPlain_of_isDigit {c : Char} (h : c.isDigit) : isPlain c := by
  have table : (['"', '(', ')', ',', '\x7b', '\x7d'].all fun x => !x.isDigit) = true := by decide
  simp only [isPlain, decide_eq_true_eq]
  intro hc
  have hdigit := List.all_eq_true.1 table c hc
  simp [h] at hdigit

theorem isDigit_of_mem {n : Nat} {c : Char} (h : c ∈ Nat.toDigits 10 n) : c.isDigit :=
  Nat.isDigit_of_mem_toDigits (by decide) (by decide) h

theorem isPlain_of_mem_text {t : Tag} {c : Char} (h : c ∈ t.text) : isPlain c := by
  rcases fixed_or_numbered t with ht | ⟨n, rfl | rfl⟩
  · exact (fixed_text ht h).1
  · rcases List.mem_cons.1 h with rfl | h
    · decide
    · exact isPlain_of_isDigit (isDigit_of_mem h)
  · rcases List.mem_cons.1 h with rfl | h
    · decide
    · exact isPlain_of_isDigit (isDigit_of_mem h)

/-- Only a tag with a number holds a digit. -/
theorem fixed_ne_numbered {t : Tag} (ht : t ∈ fixed) (c : Char) (n : Nat) :
    t.text ≠ c :: Nat.toDigits 10 n := by
  intro h
  obtain ⟨d, hd⟩ := List.exists_mem_of_ne_nil _ (Nat.toDigits_ne_nil (n := n) (b := 10))
  exact (fixed_text ht (h ▸ List.mem_cons_of_mem c hd)).2 (isDigit_of_mem hd)

theorem text_ne_nil (t : Tag) : t.text ≠ [] := by
  rcases fixed_or_numbered t with ht | ⟨n, rfl | rfl⟩
  · have table : ∀ t ∈ fixed, t.text ≠ [] := by decide
    exact table t ht
  · exact List.cons_ne_nil _ _
  · exact List.cons_ne_nil _ _

theorem text_inj {a b : Tag} (h : a.text = b.text) : a = b := by
  rcases fixed_or_numbered a with ha | ⟨m, hm⟩ <;> rcases fixed_or_numbered b with hb | ⟨n, hn⟩
  · exact List.inj_on_of_nodup_map fixed_nodup ha hb h
  · rcases hn with rfl | rfl <;> exact absurd h (fixed_ne_numbered ha _ n)
  · rcases hm with rfl | rfl <;> exact absurd h.symm (fixed_ne_numbered hb _ m)
  · rcases hm with rfl | rfl <;> rcases hn with rfl | rfl
    · rw [Text.Hex.toDigits_inj (by decide) (by decide) (List.cons.inj h).2]
    · simp [text] at h
    · simp [text] at h
    · rw [Text.Hex.toDigits_inj (by decide) (by decide) (List.cons.inj h).2]

end Tag

namespace Skeleton

open SequenceQuery.Expr (commaSeparated inParens quotedName)
open Text (cut_at)

def tag : Skeleton → Tag
  | .entity _ => .entity
  | .call op _ => .call op
  | .lambda arity _ => .lambda arity
  | .bound position => .bound position
  | .free _ => .free
  | .member .. => .member
  | .const kind => .const kind
  | .segment => .segment
  | .binary op .. => .binary op
  | .unary op _ => .unary op
  | .function .. => .function
  | .object _ => .object
  | .conditional .. => .conditional

def body : Skeleton → List Char
  | .entity name | .free name => quotedName name
  | .call _ args => inParens (texts args)
  | .lambda _ body => inParens [body.text]
  | .bound _ | .const _ | .segment => []
  | .member target name => inParens [target.text, quotedName name]
  | .binary _ left right => inParens [left.text, right.text]
  | .unary _ operand => inParens [operand.text]
  | .function name args => quotedName name ++ inParens (texts args)
  | .object fields => '\x7b' :: commaSeparated (fieldTexts fields) ++ ['\x7d']
  | .conditional test ifTrue ifFalse => inParens [test.text, ifTrue.text, ifFalse.text]

theorem text_eq (k : Skeleton) : k.text = k.tag.text ++ k.body := by
  cases k <;> simp [text, tag, body, Tag.text]

/-- What may follow a skeleton: nothing, or a separator or closing bracket. -/
def Closed (r : List Char) : Prop := ∀ c ∈ r.head?, c ∈ [',', ')', '\x7d']

theorem closed_cons {c : Char} (r : List Char) (h : c ∈ [',', ')', '\x7d']) : Closed (c :: r) := by
  simpa [Closed] using h

theorem body_leaves_tag (k : Skeleton) {r : List Char} (hr : Closed r) :
    ∀ c ∈ (k.body ++ r).head?, Tag.isPlain c = false := by
  have table : ([',', ')', '\x7d'].all fun c => !Tag.isPlain c) = true := by decide
  have close : ∀ c ∈ [',', ')', '\x7d'], Tag.isPlain c = false :=
    fun c hc => Bool.not_eq_true' _ ▸ List.all_eq_true.1 table c hc
  cases k with
  | bound | const | segment => exact fun c hc => close c (hr c hc)
  | _ => simp [body, inParens, quotedName, Text.Quoted.encode, Tag.isPlain]

/-- Where the text of the skeleton stands, the text of no other stands. -/
def Legible (a : Skeleton) : Prop :=
  ∀ b r s, Closed r → Closed s → a.text ++ r = b.text ++ s → a = b ∧ r = s

/-- The tag ends where the body starts, so only skeletons of one tag are left to tell apart. -/
theorem legible_of_body {a : Skeleton}
    (h : ∀ b r s, a.tag = b.tag → a.body ++ r = b.body ++ s → a = b ∧ r = s) : a.Legible := by
  intro b r s hr hs hab
  rw [text_eq, text_eq, List.append_assoc, List.append_assoc] at hab
  obtain ⟨ht, hb⟩ := cut_at (fun _ => Tag.isPlain_of_mem_text) (fun _ => Tag.isPlain_of_mem_text)
    (body_leaves_tag a hr) (body_leaves_tag b hs) hab
  exact h b r s (Tag.text_inj ht) hb

def following : List (List Char) → List Char
  | [] => []
  | x :: rest => ',' :: x ++ following rest

theorem commaSeparated_cons (x : List Char) (rest : List (List Char)) :
    commaSeparated (x :: rest) = x ++ following rest := by
  induction rest generalizing x with
  | nil => simp [commaSeparated, following]
  | cons y rest ih => rw [commaSeparated, ih y, following, List.cons_append]; simp

section Items

variable {α : Type} {t : α → List Char} {close : Char} {as bs : List α} {r s : List Char}

theorem closed_following (hc : close ∈ [')', '\x7d']) (xs : List (List Char)) :
    Closed (following xs ++ close :: r) := by
  cases xs with
  | nil => exact closed_cons r (List.mem_cons_of_mem _ hc)
  | cons x xs => exact closed_cons _ (by simp)

theorem following_append_inj (hc : close ∈ [')', '\x7d'])
    (item : ∀ a ∈ as, ∀ b r s, Closed r → Closed s → t a ++ r = t b ++ s → a = b ∧ r = s)
    (h : following (as.map t) ++ close :: r = following (bs.map t) ++ close :: s) :
    as = bs ∧ r = s := by
  have hne : close ≠ ',' := by rintro rfl; simp at hc
  induction as generalizing bs with
  | nil =>
    cases bs with
    | nil => simpa [following] using h
    | cons b bs => simp [following, hne] at h
  | cons a as ih =>
    cases bs with
    | nil => simp [following, Ne.symm hne] at h
    | cons b bs =>
      simp only [List.map_cons, following, List.cons_append, List.append_assoc,
        List.cons.injEq, true_and] at h
      obtain ⟨hab, hrest⟩ := item a (by simp) b _ _ (closed_following hc _)
        (closed_following hc _) h
      obtain ⟨hs, hr⟩ := ih (fun a ha => item a (by simp [ha])) hrest
      exact ⟨by rw [hab, hs], hr⟩

theorem commaSeparated_append_inj (hc : close ∈ [')', '\x7d'])
    (item : ∀ a ∈ as, ∀ b r s, Closed r → Closed s → t a ++ r = t b ++ s → a = b ∧ r = s)
    (start : ∀ a r s, t a ++ r ≠ close :: s)
    (h : commaSeparated (as.map t) ++ close :: r = commaSeparated (bs.map t) ++ close :: s) :
    as = bs ∧ r = s := by
  cases as with
  | nil =>
    cases bs with
    | nil => simpa [commaSeparated] using h
    | cons b bs =>
      rw [List.map_cons, commaSeparated_cons, List.append_assoc] at h
      exact absurd h.symm (start b _ r)
  | cons a as =>
    cases bs with
    | nil =>
      rw [List.map_cons, commaSeparated_cons, List.append_assoc] at h
      exact absurd h (start a _ s)
    | cons b bs =>
      rw [List.map_cons, List.map_cons, commaSeparated_cons, commaSeparated_cons,
        List.append_assoc, List.append_assoc] at h
      obtain ⟨hab, hrest⟩ := item a (by simp) b _ _ (closed_following hc _)
        (closed_following hc _) h
      obtain ⟨hs, hr⟩ := following_append_inj hc (fun a ha => item a (by simp [ha])) hrest
      exact ⟨by rw [hab, hs], hr⟩

end Items

theorem texts_eq_map (ks : List Skeleton) : texts ks = ks.map text := by
  induction ks with
  | nil => rw [texts, List.map_nil]
  | cons k ks ih => rw [texts, List.map_cons, ih]

def fieldText (field : String × Skeleton) : List Char :=
  quotedName field.1 ++ ':' :: field.2.text

theorem fieldTexts_eq_map (fields : List (String × Skeleton)) :
    fieldTexts fields = fields.map fieldText := by
  induction fields with
  | nil => rw [fieldTexts, List.map_nil]
  | cons field fields ih => rw [fieldTexts, List.map_cons, ih, fieldText]

theorem quotedName_append_inj {m n : String} {r s : List Char}
    (h : quotedName m ++ r = quotedName n ++ s) : m = n ∧ r = s := by
  obtain ⟨hn, hr⟩ := Text.Quoted.encode_append_inj h
  exact ⟨String.toList_inj.1 hn, hr⟩

theorem text_ne_cons {c : Char} (hc : Tag.isPlain c = false) (k : Skeleton) (r s : List Char) :
    k.text ++ r ≠ c :: s := by
  intro h
  rw [text_eq, List.append_assoc] at h
  cases ht : k.tag.text with
  | nil => exact k.tag.text_ne_nil ht
  | cons d t =>
    have := Tag.isPlain_of_mem_text (t := k.tag) (c := d) (by simp [ht])
    simp_all

theorem inParens_append_inj (as bs : List Skeleton) {r s : List Char}
    (item : ∀ a ∈ as, a.Legible)
    (h : inParens (as.map text) ++ r = inParens (bs.map text) ++ s) : as = bs ∧ r = s := by
  simp only [inParens, List.cons_append, List.append_assoc, List.cons.injEq, true_and,
    List.nil_append] at h
  exact commaSeparated_append_inj (by simp) item (text_ne_cons (by decide)) h

mutual

theorem legible : ∀ a : Skeleton, a.Legible
  | .entity name => legible_of_body fun b r s ht hb => by
    match b, ht with
    | .entity name', _ =>
      obtain ⟨rfl, hrs⟩ := quotedName_append_inj hb
      exact ⟨rfl, hrs⟩
  | .free name => legible_of_body fun b r s ht hb => by
    match b, ht with
    | .free name', _ =>
      obtain ⟨rfl, hrs⟩ := quotedName_append_inj hb
      exact ⟨rfl, hrs⟩
  | .bound position => legible_of_body fun b r s ht hb => by
    match b, ht with
    | .bound _, rfl => exact ⟨rfl, hb⟩
  | .const kind => legible_of_body fun b r s ht hb => by
    match b, ht with
    | .const _, rfl => exact ⟨rfl, hb⟩
  | .segment => legible_of_body fun b r s ht hb => by
    match b, ht with
    | .segment, _ => exact ⟨rfl, hb⟩
  | .call op args => legible_of_body fun b r s ht hb => by
    match b, ht with
    | .call _ args', rfl =>
      rw [body, body, texts_eq_map, texts_eq_map] at hb
      obtain ⟨rfl, hrs⟩ := inParens_append_inj _ _ (legible_all args) hb
      exact ⟨rfl, hrs⟩
  | .lambda arity inner => legible_of_body fun b r s ht hb => by
    match b, ht with
    | .lambda _ inner', rfl =>
      obtain ⟨hi, hrs⟩ := inParens_append_inj [inner] [inner']
        (by simpa using legible inner) hb
      simp_all
  | .member target name => legible_of_body fun b r s ht hb => by
    match b, ht with
    | .member target' name', _ =>
      simp only [body, inParens, commaSeparated, List.cons_append, List.append_assoc,
        List.cons.injEq, true_and] at hb
      obtain ⟨rfl, hn⟩ := legible target target' _ _ (closed_cons _ (by simp))
        (closed_cons _ (by simp)) hb
      obtain ⟨rfl, hrs⟩ := quotedName_append_inj (List.cons.inj hn).2
      exact ⟨rfl, by simpa using hrs⟩
  | .binary op left right => legible_of_body fun b r s ht hb => by
    match b, ht with
    | .binary _ left' right', rfl =>
      obtain ⟨hi, hrs⟩ := inParens_append_inj [left, right] [left', right']
        (by simpa using ⟨legible left, legible right⟩) hb
      simp_all
  | .unary op operand => legible_of_body fun b r s ht hb => by
    match b, ht with
    | .unary _ operand', rfl =>
      obtain ⟨hi, hrs⟩ := inParens_append_inj [operand] [operand']
        (by simpa using legible operand) hb
      simp_all
  | .function name args => legible_of_body fun b r s ht hb => by
    match b, ht with
    | .function name' args', _ =>
      rw [body, body, texts_eq_map, texts_eq_map, List.append_assoc, List.append_assoc] at hb
      obtain ⟨rfl, ha⟩ := quotedName_append_inj hb
      obtain ⟨rfl, hrs⟩ := inParens_append_inj _ _ (legible_all args) ha
      exact ⟨rfl, hrs⟩
  | .object fields => legible_of_body fun b r s ht hb => by
    match b, ht with
    | .object fields', _ =>
      simp only [body, fieldTexts_eq_map, List.cons_append, List.append_assoc, List.cons.injEq,
        true_and, List.nil_append] at hb
      obtain ⟨rfl, hrs⟩ := commaSeparated_append_inj (by simp) (legible_fields fields)
        (by simp [fieldText, quotedName, Text.Quoted.encode]) hb
      exact ⟨rfl, hrs⟩
  | .conditional test ifTrue ifFalse => legible_of_body fun b r s ht hb => by
    match b, ht with
    | .conditional test' ifTrue' ifFalse', _ =>
      obtain ⟨hi, hrs⟩ := inParens_append_inj [test, ifTrue, ifFalse]
        [test', ifTrue', ifFalse']
        (by simpa using ⟨legible test, legible ifTrue, legible ifFalse⟩) hb
      simp_all

theorem legible_all : ∀ as : List Skeleton, ∀ a ∈ as, a.Legible
  | [] => by simp
  | a :: as => by simpa using ⟨legible a, legible_all as⟩

theorem legible_fields : ∀ fields : List (String × Skeleton), ∀ a ∈ fields, ∀ b r s,
    Closed r → Closed s → fieldText a ++ r = fieldText b ++ s → a = b ∧ r = s
  | [] => by simp
  | (name, k) :: fields => by
    intro a ha
    rcases List.mem_cons.1 ha with rfl | ha
    · rintro ⟨name', k'⟩ r s hr hs h
      simp only [fieldText, List.append_assoc, List.cons_append] at h
      obtain ⟨rfl, hk⟩ := quotedName_append_inj h
      obtain ⟨rfl, hrs⟩ := legible k k' r s hr hs (List.cons.inj hk).2
      exact ⟨rfl, hrs⟩
    · exact legible_fields fields a ha

end

theorem text_inj {a b : Skeleton} (h : a.text = b.text) : a = b :=
  (legible a b [] [] (by simp [Closed]) (by simp [Closed]) (by simpa using h)).1

end Skeleton

theorem Expr.skeleton_eq_of_shape {e e' : Expr} (h : e.shape = e'.shape) :
    e.skeleton = e'.skeleton := by
  rw [Expr.shape, Expr.shape, Skeleton.shapeIn_eq_text, Skeleton.shapeIn_eq_text] at h
  exact Skeleton.text_inj h

namespace Fingerprint

/-- Two queries have one fingerprint exactly when they have one skeleton, whatever their names,
their constants and the names of their parameters are. -/
theorem ofExpr_eq_iff (a b : Expr) : ofExpr a = ofExpr b ↔ a.skeleton = b.skeleton := by
  constructor
  · intro h
    exact Expr.skeleton_eq_of_shape (congrArg Fingerprint.shape h)
  · intro h
    have hshape : a.shape = b.shape := by
      rw [Expr.shape, Expr.shape, Skeleton.shapeIn_eq_text, Skeleton.shapeIn_eq_text]
      exact congrArg Skeleton.text h
    rw [ofExpr, ofExpr, hshape]

end Fingerprint

end SequenceQuery
