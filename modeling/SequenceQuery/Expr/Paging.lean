import SequenceQuery.Expr.Basic

namespace SequenceQuery

structure Marker where
  /-- The outermost call of the marker. -/
  call : Expr
  /-- The sequence it pages over. -/
  source : Expr
  segment : Segment

namespace Expr

/-- A count in a paging call; a negative one counts as zero. -/
def pagingCount (n : Int64) : UInt64 := UInt64.ofNat n.toInt.toNat

def isPagingStep : Expr → Bool
  | .call _ .skip [_, .const _ (.int _)] | .call _ .take [_, .const _ (.int _)] => true
  | _ => false

/-- The segment that a run of paging steps selects, composed from the innermost step on, and the
sequence below the run. -/
def pagingRun : Expr → Segment × Expr
  | .call _ .skip [source, .const _ (.int n)] =>
    let (selected, below) := source.pagingRun
    (selected.skip (pagingCount n), below)
  | .call _ .take [source, .const _ (.int n)] =>
    let (selected, below) := source.pagingRun
    (selected.take (pagingCount n), below)
  | e => (.all, e)

/-- The marker whose outermost call is this node. -/
def asMarker? (e : Expr) : Option Marker :=
  match e with
  | .call _ .segment (source :: .segment _ s :: _) => some ⟨e, source, s⟩
  | _ =>
    if e.isPagingStep then
      let (selected, below) := e.pagingRun
      some ⟨e, below, selected⟩
    else none

mutual

def marker? : Expr → Option Marker
  | e@(.entity ..) | e@(.param ..) | e@(.const ..) | e@(.segment ..) => e.asMarker?
  | e@(.call _ _ args) | e@(.function _ _ args) => e.asMarker?.or (firstMarker? args)
  | e@(.lambda _ _ body) => e.asMarker?.or body.marker?
  | e@(.member _ target _) => e.asMarker?.or target.marker?
  | e@(.binary _ _ left right) => e.asMarker?.or (left.marker?.or right.marker?)
  | e@(.unary _ _ operand) => e.asMarker?.or operand.marker?
  | e@(.object _ fields) => e.asMarker?.or (firstFieldMarker? fields)
  | e@(.conditional _ test ifTrue ifFalse) =>
    e.asMarker?.or (test.marker?.or (ifTrue.marker?.or ifFalse.marker?))

def firstMarker? : List Expr → Option Marker
  | [] => none
  | e :: rest => e.marker?.or (firstMarker? rest)

def firstFieldMarker? : List (String × Expr) → Option Marker
  | [] => none
  | (_, e) :: rest => e.marker?.or (firstFieldMarker? rest)

end

def segment? (e : Expr) : Option Segment := e.marker?.map Marker.segment

end Expr

end SequenceQuery
