import SequenceQuery.Expr.Shape

namespace SequenceQuery

inductive Kind
  | null | bool | int | float | text
  deriving DecidableEq

namespace Kind

def name : Kind → String
  | .null => "null"
  | .bool => "bool"
  | .int => "int"
  | .float => "float"
  | .text => "text"

end Kind

def Value.sort : Value → Kind
  | .null => .null
  | .bool _ => .bool
  | .int _ => .int
  | .float _ => .float
  | .text _ => .text

inductive Skeleton
  | entity (name : String)
  | call (op : Operator) (args : List Skeleton)
  | lambda (arity : Nat) (body : Skeleton)
  /-- A parameter by the position of its binder, counted from the outermost one on. -/
  | bound (position : Nat)
  | free (name : String)
  | member (target : Skeleton) (name : String)
  | const (kind : Kind)
  | segment
  | binary (op : BinaryOp) (left right : Skeleton)
  | unary (op : UnaryOp) (operand : Skeleton)
  | function (name : String) (args : List Skeleton)
  | object (fields : List (String × Skeleton))
  | conditional (test ifTrue ifFalse : Skeleton)

/-- The last occurrence is the innermost binder, and the rightmost one of a list of parameters. -/
theorem lastIndex?_eq_some_iff {α : Type} [DecidableEq α] {x : α} {xs : List α} {i : Nat} :
    lastIndex? x xs = some i ↔ xs[i]? = some x ∧ ∀ j, i < j → xs[j]? ≠ some x := by
  induction xs generalizing i with
  | nil => simp [lastIndex?]
  | cons y rest ih =>
    rw [lastIndex?]
    cases h : lastIndex? x rest with
    | some k =>
      have hk := ih.1 h
      constructor
      · rintro ⟨⟩
        refine ⟨by simpa using hk.1, fun j hj => ?_⟩
        obtain ⟨j, rfl⟩ := Nat.exists_eq_succ_of_ne_zero (show j ≠ 0 by omega)
        simpa using hk.2 j (by omega)
      · rintro ⟨hi, hlast⟩
        cases i with
        | zero => exact absurd (by simpa using hk.1) (hlast (k + 1) (by omega))
        | succ i =>
          have hi := ih.2 ⟨by simpa using hi, fun j hj => by simpa using hlast (j + 1) (by omega)⟩
          simp_all
    | none =>
      have absent : ∀ j : Nat, rest[j]? ≠ some x := by
        intro j hj
        have hmem := List.mem_of_getElem? hj
        clear hj ih
        induction rest with
        | nil => simp at hmem
        | cons z rest ih =>
          rw [lastIndex?] at h
          cases hr : lastIndex? x rest <;> simp only [hr] at h
          · split at h
            · simp at h
            · exact ih hr ((List.mem_cons.1 hmem).resolve_left (Ne.symm ‹_›))
          · simp at h
      cases i with
      | zero =>
        by_cases hy : y = x
        · simp only [hy, if_true, true_iff, List.getElem?_cons_zero, true_and]
          intro j hj
          obtain ⟨j, rfl⟩ := Nat.exists_eq_succ_of_ne_zero (show j ≠ 0 by omega)
          simpa using absent j
        · simp [hy]
      | succ i =>
        have := absent i
        by_cases hy : y = x <;> simp [hy, this]

namespace Expr

mutual

/-- The skeleton in a scope that lists the parameters from the outermost on. -/
def skeletonIn (scope : List String) : Expr → Skeleton
  | .entity _ name => .entity name
  | .call _ op args => .call op (skeletonsIn scope args)
  | .lambda _ params body => .lambda params.length (body.skeletonIn (scope ++ params))
  | .param _ name =>
    match lastIndex? name scope with
    | some position => .bound position
    | none => .free name
  | .member _ target name => .member (target.skeletonIn scope) name
  | .const _ value => .const value.sort
  | .segment .. => .segment
  | .binary _ op left right => .binary op (left.skeletonIn scope) (right.skeletonIn scope)
  | .unary _ op operand => .unary op (operand.skeletonIn scope)
  | .function _ name args => .function name (skeletonsIn scope args)
  | .object _ fields => .object (fieldSkeletonsIn scope fields)
  | .conditional _ test ifTrue ifFalse =>
    .conditional (test.skeletonIn scope) (ifTrue.skeletonIn scope) (ifFalse.skeletonIn scope)

def skeletonsIn (scope : List String) : List Expr → List Skeleton
  | [] => []
  | e :: rest => e.skeletonIn scope :: skeletonsIn scope rest

def fieldSkeletonsIn (scope : List String) : List (String × Expr) → List (String × Skeleton)
  | [] => []
  | (name, e) :: rest => (name, e.skeletonIn scope) :: fieldSkeletonsIn scope rest

end

def skeleton (e : Expr) : Skeleton := e.skeletonIn []

theorem ne_skeletonIn_param {σ : List String} {i : NodeId} {name : String} {k : Skeleton}
    (hbound : ∀ position, k ≠ .bound position) (hfree : ∀ name, k ≠ .free name) :
    k ≠ (param i name).skeletonIn σ := by
  rw [skeletonIn]
  cases lastIndex? name σ with
  | none => exact hfree name
  | some position => exact hbound position

inductive SameNode (σ σ' : List String) : Expr → Expr → Prop
  | entity {i i' : NodeId} (name : String) : SameNode σ σ' (.entity i name) (.entity i' name)
  | call {i i' : NodeId} (op : Operator) {args args' : List Expr}
    (hargs : skeletonsIn σ args = skeletonsIn σ' args') :
    SameNode σ σ' (.call i op args) (.call i' op args')
  | lambda {i i' : NodeId} {params params' : List String} {body body' : Expr}
    (hlength : params.length = params'.length)
    (hbody : body.skeletonIn (σ ++ params) = body'.skeletonIn (σ' ++ params')) :
    SameNode σ σ' (.lambda i params body) (.lambda i' params' body')
  | param {i i' : NodeId} {name name' : String}
    (h : (Expr.param i name).skeletonIn σ = (Expr.param i' name').skeletonIn σ') :
    SameNode σ σ' (.param i name) (.param i' name')
  | member {i i' : NodeId} {target target' : Expr} (name : String)
    (htarget : target.skeletonIn σ = target'.skeletonIn σ') :
    SameNode σ σ' (.member i target name) (.member i' target' name)
  | const {i i' : NodeId} {value value' : Value} (hsort : value.sort = value'.sort) :
    SameNode σ σ' (.const i value) (.const i' value')
  | segment {i i' : NodeId} (segment segment' : Segment) :
    SameNode σ σ' (.segment i segment) (.segment i' segment')
  | binary {i i' : NodeId} (op : BinaryOp) {left left' right right' : Expr}
    (hleft : left.skeletonIn σ = left'.skeletonIn σ')
    (hright : right.skeletonIn σ = right'.skeletonIn σ') :
    SameNode σ σ' (.binary i op left right) (.binary i' op left' right')
  | unary {i i' : NodeId} (op : UnaryOp) {operand operand' : Expr}
    (hoperand : operand.skeletonIn σ = operand'.skeletonIn σ') :
    SameNode σ σ' (.unary i op operand) (.unary i' op operand')
  | function {i i' : NodeId} (name : String) {args args' : List Expr}
    (hargs : skeletonsIn σ args = skeletonsIn σ' args') :
    SameNode σ σ' (.function i name args) (.function i' name args')
  | object {i i' : NodeId} {fields fields' : List (String × Expr)}
    (hfields : fieldSkeletonsIn σ fields = fieldSkeletonsIn σ' fields') :
    SameNode σ σ' (.object i fields) (.object i' fields')
  | conditional {i i' : NodeId} {test test' ifTrue ifTrue' ifFalse ifFalse' : Expr}
    (htest : test.skeletonIn σ = test'.skeletonIn σ')
    (htrue : ifTrue.skeletonIn σ = ifTrue'.skeletonIn σ')
    (hfalse : ifFalse.skeletonIn σ = ifFalse'.skeletonIn σ') :
    SameNode σ σ' (.conditional i test ifTrue ifFalse) (.conditional i' test' ifTrue' ifFalse')

theorem sameNode_of_skeleton {σ σ' : List String} {e e' : Expr}
    (h : e.skeletonIn σ = e'.skeletonIn σ') : SameNode σ σ' e e' := by
  cases e with
  | param =>
    cases e' with
    | param => exact .param h
    | _ => exact absurd h.symm (ne_skeletonIn_param nofun nofun)
  | _ =>
    cases e' with
    | param => exact absurd h (ne_skeletonIn_param nofun nofun)
    | _ =>
      first
        | cases h; done
        | injection h; subst_vars; constructor <;> assumption

end Expr

namespace Skeleton

open SequenceQuery.Expr (commaSeparated inParens quotedName)

mutual

def text : Skeleton → List Char
  | .entity name => 'E' :: quotedName name
  | .call op args => op.name.toList ++ inParens (texts args)
  | .lambda arity body => 'L' :: (toString arity).toList ++ inParens [body.text]
  | .bound position => '$' :: (toString position).toList
  | .free name => '?' :: quotedName name
  | .member target name => 'M' :: inParens [target.text, quotedName name]
  | .const kind => '#' :: kind.name.toList
  | .segment => '#' :: "segment".toList
  | .binary op left right => "B:".toList ++ op.name.toList ++ inParens [left.text, right.text]
  | .unary op operand => "U:".toList ++ op.name.toList ++ inParens [operand.text]
  | .function name args => 'F' :: quotedName name ++ inParens (texts args)
  | .object fields => 'N' :: '\x7b' :: commaSeparated (fieldTexts fields) ++ ['\x7d']
  | .conditional test ifTrue ifFalse => 'C' :: inParens [test.text, ifTrue.text, ifFalse.text]

def texts : List Skeleton → List (List Char)
  | [] => []
  | k :: rest => k.text :: texts rest

def fieldTexts : List (String × Skeleton) → List (List Char)
  | [] => []
  | (name, k) :: rest => (quotedName name ++ ':' :: k.text) :: fieldTexts rest

end

theorem kind_eq_name (v : Value) : v.kind = v.sort.name := by cases v <;> rfl

mutual

/-- The shape of an expression is the text of its skeleton. -/
theorem shapeIn_eq_text (scope : List String) :
    ∀ e : Expr, e.shapeIn scope = (e.skeletonIn scope).text
  | .entity .. | .segment .. => by simp [Expr.shapeIn, Expr.skeletonIn, text]
  | .call _ _ args | .function _ _ args => by
    simp [Expr.shapeIn, Expr.skeletonIn, text, shapesIn_eq_texts scope args]
  | .lambda _ params body => by
    simp [Expr.shapeIn, Expr.skeletonIn, text, shapeIn_eq_text (scope ++ params) body]
  | .param _ name => by
    rw [Expr.shapeIn, Expr.skeletonIn]
    cases lastIndex? name scope <;> simp [text]
  | .member _ target _ => by
    simp [Expr.shapeIn, Expr.skeletonIn, text, shapeIn_eq_text scope target]
  | .const _ v => by simp [Expr.shapeIn, Expr.skeletonIn, text, kind_eq_name]
  | .binary _ _ left right => by
    simp [Expr.shapeIn, Expr.skeletonIn, text, shapeIn_eq_text scope left,
      shapeIn_eq_text scope right]
  | .unary _ _ operand => by
    simp [Expr.shapeIn, Expr.skeletonIn, text, shapeIn_eq_text scope operand]
  | .object _ fields => by
    simp [Expr.shapeIn, Expr.skeletonIn, text, fieldShapesIn_eq_texts scope fields]
  | .conditional _ test ifTrue ifFalse => by
    simp [Expr.shapeIn, Expr.skeletonIn, text, shapeIn_eq_text scope test,
      shapeIn_eq_text scope ifTrue, shapeIn_eq_text scope ifFalse]

theorem shapesIn_eq_texts (scope : List String) :
    ∀ es : List Expr, Expr.shapesIn scope es = texts (Expr.skeletonsIn scope es)
  | [] => by simp [Expr.shapesIn, Expr.skeletonsIn, texts]
  | e :: rest => by
    simp [Expr.shapesIn, Expr.skeletonsIn, texts, shapeIn_eq_text scope e,
      shapesIn_eq_texts scope rest]

theorem fieldShapesIn_eq_texts (scope : List String) : ∀ fields : List (String × Expr),
    Expr.fieldShapesIn scope fields = fieldTexts (Expr.fieldSkeletonsIn scope fields)
  | [] => by simp [Expr.fieldShapesIn, Expr.fieldSkeletonsIn, fieldTexts]
  | (_, e) :: rest => by
    simp [Expr.fieldShapesIn, Expr.fieldSkeletonsIn, fieldTexts, shapeIn_eq_text scope e,
      fieldShapesIn_eq_texts scope rest]

end

end Skeleton

end SequenceQuery
