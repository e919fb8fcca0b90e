import SequenceQuery.Proofs.Signatures

namespace SequenceQuery

def leadingRows : List (Except ExecutionError Row) → List Row
  | .ok row :: rest => row :: leadingRows rest
  | _ => []

def firstFailure : List (Except ExecutionError Row) → Option ExecutionError
  | .ok _ :: rest => firstFailure rest
  | .error x :: _ => some x
  | [] => none

namespace Cancellation

def point : Cancellation → Option Nat
  | .beforeCall => some 0
  | .afterItems n => some n
  | .never | .duringFetch _ => none

theorem firedAt_iff {c : Cancellation} {received : Nat} :
    c.firedAt received = true ↔ ∃ n, c.point = some n ∧ n ≤ received := by
  cases c <;> simp [firedAt, point]

theorem not_firedAt {c : Cancellation} {received : Nat}
    (h : ∀ n, c.point = some n → received < n) : c.firedAt received = false := by
  rw [← Bool.not_eq_true, firedAt_iff]
  rintro ⟨n, hn, hle⟩
  exact Nat.not_le_of_lt (h n hn) hle

end Cancellation

section takeRows

variable {c : Cancellation} {received : Nat} {offers : List (Except ExecutionError Row)}

theorem takeRows_of_fired (h : c.firedAt received = true) :
    takeRows c received offers = ⟨[.error .cancelled], 0⟩ := by
  cases offers <;> simp [takeRows, h]

/-- With a request that comes after `n` more rows, at most as many as there are. -/
theorem takeRows_of_point {n : Nat} (h : c.point = some (received + n))
    (hn : n ≤ (leadingRows offers).length) : takeRows c received offers =
      ⟨((leadingRows offers).take n).map .ok ++ [.error .cancelled], n⟩ := by
  induction n generalizing received offers with
  | zero => exact takeRows_of_fired (Cancellation.firedAt_iff.2 ⟨_, h, Nat.le_refl _⟩)
  | succ n ih =>
    have hfired : c.firedAt received = false :=
      Cancellation.not_firedAt fun k hk => by rw [h] at hk; cases hk; omega
    cases offers with
    | nil => exact absurd hn (Nat.not_succ_le_zero n)
    | cons offer rest =>
      cases offer with
      | error x => exact absurd hn (Nat.not_succ_le_zero n)
      | ok row =>
        have hpoint : c.point = some (received + 1 + n) := by
          rw [h, Nat.add_right_comm, Nat.add_assoc]
        simp only [takeRows, hfired, ih hpoint (Nat.le_of_succ_le_succ hn)]
        rfl

theorem takeRows_of_unfired
    (h : ∀ n, c.point = some n → received + (leadingRows offers).length < n) :
    takeRows c received offers =
      ⟨(leadingRows offers).map .ok ++ (firstFailure offers).toList.map (.error <| .execution ·),
        (leadingRows offers).length + (firstFailure offers).toList.length⟩ := by
  have hfired : c.firedAt received = false := Cancellation.not_firedAt fun n hn => by
    have := h n hn
    omega
  induction offers generalizing received with
  | nil => simp [takeRows, hfired, leadingRows, firstFailure]
  | cons offer rest ih =>
    cases offer with
    | error x => simp [takeRows, hfired, leadingRows, firstFailure]
    | ok row =>
      have hlater : ∀ n, c.point = some n → received + 1 + (leadingRows rest).length < n :=
        fun n hn => by
          have := h n hn
          simp only [leadingRows, List.length_cons] at this
          omega
      have hrest := ih hlater (Cancellation.not_firedAt fun n hn => by
        have := hlater n hn
        omega)
      simp only [takeRows, hfired, hrest, leadingRows, firstFailure]
      simp [Nat.add_right_comm]

end takeRows

/-- What a stream gives and takes, whose rows are read by `read`: the failure of the call; nothing
if it was asked to stop before the start; the failure to open; the rows up to the request and a
cancellation; or the rows up to the first failure and that failure, if there is one. -/
structure Stops {α : Type} (ready : Except QueryError Command) (connection : Connection)
    (c : Cancellation) (read : Row → Except QueryError α) (ran : Ran (Streamed α)) : Prop where
  noCommand : ∀ x, ready = .error x →
    (∃ cause, x = .execution cause) ∧ ran = ⟨⟨[.error x], 0⟩, []⟩
  notStarted : ∀ command, ready = .ok command → c.firedAt 0 = true →
    ran = ⟨⟨[.error .cancelled], 0⟩, []⟩
  notOpened : ∀ command x, ready = .ok command → c.firedAt 0 = false →
    connection.failure = some x → ran = ⟨⟨[.error (.execution x)], 0⟩, [command]⟩
  cancelled : ∀ command n, ready = .ok command → c.firedAt 0 = false → connection.failure = none →
    c.point = some n → n ≤ (leadingRows connection.offers).length →
    ran = ⟨⟨((leadingRows connection.offers).take n).map read ++ [.error .cancelled], n⟩, [command]⟩
  ended : ∀ command, ready = .ok command → connection.failure = none →
    (∀ n, c.point = some n → (leadingRows connection.offers).length < n) →
    ran = ⟨⟨(leadingRows connection.offers).map read ++
        (firstFailure connection.offers).toList.map (.error <| .execution ·),
      (leadingRows connection.offers).length + (firstFailure connection.offers).toList.length⟩,
      [command]⟩

/-- What a poll of a stream finds: whether it is asked to stop, whether the connection has taken the
command, and whether its next offer is there. -/
structure Moment where
  fired : Bool
  opened : Bool
  arrived : Bool

inductive Phase
  | unopened (ready : Except QueryError Command)
  | opening
  | reading (offers : List (Except ExecutionError Row))
  | finished

/-- A stream between two polls, with what it has given and taken so far. -/
structure Feed where
  phase : Phase
  items : List (Except QueryError Row)
  fetched : Nat
  sent : List Command

namespace Feed

def start (ready : Except QueryError Command) : Feed := ⟨.unopened ready, [], 0, []⟩

def finishWith (f : Feed) (x : QueryError) : Feed :=
  { f with phase := .finished, items := f.items ++ [.error x] }

def readOn (f : Feed) (now : Moment) (offers : List (Except ExecutionError Row)) : Feed :=
  if now.fired then f.finishWith .cancelled
  else if !now.arrived then { f with phase := .reading offers }
  else match offers with
    | [] => { f with phase := .finished }
    | .error x :: _ => { f.finishWith (.execution x) with fetched := f.fetched + 1 }
    | .ok row :: rest =>
      { f with phase := .reading rest, items := f.items ++ [.ok row], fetched := f.fetched + 1 }

def openOn (connection : Connection) (f : Feed) (now : Moment) : Feed :=
  if now.fired then f.finishWith .cancelled
  else if !now.opened then { f with phase := .opening }
  else match connection.failure with
    | some x => f.finishWith (.execution x)
    | none => f.readOn now connection.offers

/-- A poll gives at most one item. The request to stop is looked at first, before the command is
sent and before each offer is taken. -/
def poll (connection : Connection) (f : Feed) (now : Moment) : Feed :=
  match f.phase with
  | .unopened (.error x) => f.finishWith x
  | .unopened (.ok command) =>
    if now.fired then f.finishWith .cancelled
    else { f with sent := [command] }.openOn connection now
  | .opening => f.openOn connection now
  | .reading offers => f.readOn now offers
  | .finished => f

def polls (connection : Connection) (f : Feed) (times : List Moment) : Feed :=
  times.foldl (poll connection) f

def firing (connection : Connection) (f : Feed) : List Moment → Cancellation
  | [] => .never
  | now :: times =>
    match f.phase with
    | .finished => .never
    | _ =>
      if now.fired then .afterItems f.items.length
      else (f.poll connection now).firing connection times

def isFinished (f : Feed) : Bool :=
  match f.phase with
  | .finished => true
  | _ => false

def opened (connection : Connection) (c : Cancellation) (received : Nat) : Streamed Row :=
  if c.firedAt received then ⟨[.error .cancelled], 0⟩
  else match connection.failure with
    | some x => ⟨[.error (.execution x)], 0⟩
    | none => takeRows c received connection.offers

/-- What a stream will still give and take if it is asked to stop as told. -/
def rest (connection : Connection) (c : Cancellation) (f : Feed) : Streamed Row :=
  match f.phase with
  | .unopened (.error x) => ⟨[.error x], 0⟩
  | .unopened (.ok _) | .opening => opened connection c f.items.length
  | .reading offers => takeRows c f.items.length offers
  | .finished => ⟨[], 0⟩

def total (connection : Connection) (c : Cancellation) (f : Feed) : Streamed Row :=
  ⟨f.items ++ (f.rest connection c).items, f.fetched + (f.rest connection c).fetched⟩

variable {connection : Connection} {c : Cancellation} {f : Feed} {now : Moment}

theorem finishWith_total (f : Feed) (x : QueryError) :
    (f.finishWith x).total connection c = ⟨f.items ++ [.error x], f.fetched⟩ := by
  simp [total, rest, finishWith]

/-- A poll from `f` to `g` does as `c` tells: it finds the request if that has come, and gives an
item or ends the stream only if it has not. -/
structure Heeds (c : Cancellation) (now : Moment) (f g : Feed) : Prop where
  fired : now.fired = true → c.firedAt f.items.length = true
  unfired : now.fired = false → g.isFinished = true ∨ f.items.length < g.items.length →
    c.firedAt f.items.length = false

theorem readOn_total (offers : List (Except ExecutionError Row))
    (h : Heeds c now f (f.readOn now offers)) : (f.readOn now offers).total connection c =
      ⟨f.items ++ (takeRows c f.items.length offers).items,
        f.fetched + (takeRows c f.items.length offers).fetched⟩ := by
  obtain ⟨hfired, hunfired⟩ := h
  revert hunfired
  unfold readOn
  cases hnow : now.fired with
  | true =>
    rw [if_pos rfl, finishWith_total, takeRows_of_fired (hfired hnow)]
    exact fun _ => rfl
  | false =>
    cases now.arrived with
    | false => exact fun _ => rfl
    | true =>
      match offers with
      | [] =>
        intro hunfired
        have hc := hunfired rfl (.inl rfl)
        simp [total, rest, takeRows, hc]
      | .error x :: _ =>
        intro hunfired
        have hc := hunfired rfl (.inl rfl)
        simp [total, rest, takeRows, hc, finishWith]
      | .ok row :: later =>
        intro hunfired
        have hc := hunfired rfl (.inr (by simp))
        simp [total, rest, takeRows, hc, Nat.add_assoc, Nat.add_comm]

theorem opened_of_none (h : connection.failure = none) (received : Nat) :
    opened connection c received = takeRows c received connection.offers := by
  rw [opened, h]
  split
  · rename_i hc
    exact (takeRows_of_fired hc).symm
  · rfl

theorem openOn_total (h : Heeds c now f (f.openOn connection now)) :
    (f.openOn connection now).total connection c =
      ⟨f.items ++ (opened connection c f.items.length).items,
        f.fetched + (opened connection c f.items.length).fetched⟩ := by
  revert h
  unfold openOn
  cases hnow : now.fired with
  | true =>
    intro h
    rw [if_pos rfl, finishWith_total, opened, if_pos (h.fired hnow)]
    rfl
  | false =>
    cases now.opened with
    | false => exact fun _ => rfl
    | true =>
      cases hfailure : connection.failure with
      | some x =>
        intro h
        rw [if_neg Bool.false_ne_true, opened, h.unfired hnow (.inl rfl), hfailure]
        exact finishWith_total f (.execution x)
      | none =>
        intro h
        rw [opened_of_none hfailure]
        exact readOn_total connection.offers h

/-- A poll changes nothing of what the stream comes to. -/
theorem poll_total (hf : f.isFinished = false) (h : Heeds c now f (f.poll connection now)) :
    (f.poll connection now).total connection c = f.total connection c := by
  obtain ⟨phase, items, fetched, sent⟩ := f
  match phase with
  | .unopened (.error x) => exact finishWith_total _ x
  | .unopened (.ok command) =>
    revert h
    simp only [poll]
    split
    · intro h
      rename_i hnow
      have hopened : opened connection c items.length = ⟨[.error .cancelled], 0⟩ :=
        if_pos (h.fired hnow)
      rw [finishWith_total, total, rest, hopened]
      rfl
    · exact fun h => openOn_total (f := ⟨.unopened (.ok command), items, fetched, [command]⟩)
        ⟨h.fired, h.unfired⟩
  | .opening => exact openOn_total h
  | .reading offers => exact readOn_total offers h
  | .finished => cases hf

def left (connection : Connection) (f : Feed) : Nat :=
  match f.phase with
  | .unopened _ | .opening => connection.offers.length
  | .reading offers => offers.length
  | .finished => 0

def isUnopened (f : Feed) : Bool :=
  match f.phase with
  | .unopened _ => true
  | _ => false

inductive Outcome (connection : Connection) (now : Moment) (f g : Feed) : Prop
  | ends (x : QueryError) (finished : g.isFinished = true) (items : g.items = f.items ++ [.error x])
  | runsOut (quiet : now.fired = false) (finished : g.isFinished = true) (items : g.items = f.items)
  | gives (row : Row) (quiet : now.fired = false) (items : g.items = f.items ++ [.ok row])
      (left : g.left connection + 1 = f.left connection)
  | waits (quiet : now.fired = false) (waiting : (now.opened && now.arrived) = false)
      (items : g.items = f.items)

structure Polled (connection : Connection) (now : Moment) (f g : Feed) (sent : List Command) :
    Prop where
  opened : g.isUnopened = false
  sent : g.sent = sent
  outcome : Outcome connection now f g

theorem finishWith_polled (f : Feed) (x : QueryError) :
    Polled connection now f (f.finishWith x) f.sent :=
  ⟨rfl, rfl, .ends x rfl rfl⟩

theorem readOn_polled {offers : List (Except ExecutionError Row)}
    (h : f.left connection = offers.length) :
    Polled connection now f (f.readOn now offers) f.sent := by
  unfold readOn
  cases hnow : now.fired with
  | true => exact finishWith_polled f .cancelled
  | false =>
    cases harrived : now.arrived with
    | false => exact ⟨rfl, rfl, .waits hnow (by simp [harrived]) rfl⟩
    | true =>
      match offers with
      | [] => exact ⟨rfl, rfl, .runsOut hnow rfl rfl⟩
      | .error x :: _ => exact ⟨rfl, rfl, .ends (.execution x) rfl rfl⟩
      | .ok row :: later => exact ⟨rfl, rfl, .gives row hnow rfl h.symm⟩

theorem openOn_polled (connection : Connection) (now : Moment)
    (h : f.left connection = connection.offers.length) :
    Polled connection now f (f.openOn connection now) f.sent := by
  unfold openOn
  cases hnow : now.fired with
  | true => exact finishWith_polled f .cancelled
  | false =>
    cases hopened : now.opened with
    | false => exact ⟨rfl, rfl, .waits hnow (by simp [hopened]) rfl⟩
    | true =>
      cases connection.failure with
      | some x => exact finishWith_polled f (.execution x)
      | none => exact readOn_polled h

def sentBy (f : Feed) (now : Moment) : List Command :=
  match f.phase with
  | .unopened (.ok command) => if now.fired then f.sent else [command]
  | _ => f.sent

theorem poll_polled (connection : Connection) (now : Moment) (hf : f.isFinished = false) :
    Polled connection now f (f.poll connection now) (f.sentBy now) := by
  obtain ⟨phase, items, fetched, sent⟩ := f
  match phase with
  | .unopened (.error x) => exact finishWith_polled _ x
  | .unopened (.ok command) =>
    simp only [poll, sentBy]
    split
    · exact finishWith_polled _ .cancelled
    · obtain ⟨hopened, hsent, houtcome⟩ := openOn_polled connection now
        (f := ⟨.unopened (.ok command), items, fetched, [command]⟩) rfl
      refine ⟨hopened, hsent, ?_⟩
      cases houtcome with
      | ends x finished items => exact .ends x finished items
      | runsOut quiet finished items => exact .runsOut quiet finished items
      | gives row quiet items left => exact .gives row quiet items left
      | waits quiet waiting items => exact .waits quiet waiting items
  | .opening => exact openOn_polled connection now rfl
  | .reading offers => exact readOn_polled rfl
  | .finished => cases hf

theorem poll_finished (hf : f.isFinished = true) : f.poll connection now = f := by
  obtain ⟨phase, items, fetched, sent⟩ := f
  cases phase <;> first | rfl | cases hf

theorem polls_finished (hf : f.isFinished = true) (times : List Moment) :
    f.polls connection times = f := by
  induction times with
  | nil => rfl
  | cons now times ih =>
    rw [polls, List.foldl_cons, poll_finished hf]
    exact ih

theorem total_finished (hf : f.isFinished = true) :
    f.total connection c = ⟨f.items, f.fetched⟩ := by
  obtain ⟨phase, items, fetched, sent⟩ := f
  cases phase with
  | finished => simp [total, rest]
  | _ => cases hf

theorem firing_finished (hf : f.isFinished = true) (times : List Moment) :
    f.firing connection times = .never := by
  obtain ⟨phase, items, fetched, sent⟩ := f
  cases times <;> cases phase <;> first | rfl | cases hf

theorem firing_cons (hf : f.isFinished = false) (times : List Moment) :
    f.firing connection (now :: times) =
      if now.fired then .afterItems f.items.length
      else (f.poll connection now).firing connection times := by
  obtain ⟨phase, items, fetched, sent⟩ := f
  cases phase <;> first | rfl | cases hf

theorem items_poll (connection : Connection) (f : Feed) (now : Moment) :
    f.items.length ≤ (f.poll connection now).items.length := by
  cases hf : f.isFinished with
  | true => rw [poll_finished hf]
  | false => cases (poll_polled connection now hf).outcome <;> simp [*]

/-- The request to stop comes when all items given up to then have been received. -/
theorem le_of_firing {times : List Moment} {n : Nat}
    (h : (f.firing connection times).point = some n) : f.items.length ≤ n := by
  induction times generalizing f with
  | nil => cases h
  | cons now times ih =>
    cases hf : f.isFinished with
    | true =>
      rw [firing_finished hf] at h
      cases h
    | false =>
      rw [firing_cons hf] at h
      split at h
      · cases h
        exact Nat.le_refl _
      · exact (items_poll connection f now).trans (ih h)

theorem heeds_firing (connection : Connection) (now : Moment) (hf : f.isFinished = false)
    (times : List Moment) :
    Heeds (f.firing connection (now :: times)) now f (f.poll connection now) := by
  rw [firing_cons hf]
  refine ⟨fun hnow => ?_, fun hnow hmoves => ?_⟩
  · rw [if_pos hnow]
    exact Cancellation.firedAt_iff.2 ⟨_, rfl, Nat.le_refl _⟩
  · rw [hnow, if_neg Bool.false_ne_true]
    refine Cancellation.not_firedAt fun n hn => ?_
    rcases hmoves with hfinished | hmore
    · rw [firing_finished hfinished] at hn
      cases hn
    · exact Nat.lt_of_lt_of_le hmore (le_of_firing hn)

theorem finished_of_fired (hnow : now.fired = true) :
    (f.poll connection now).isFinished = true := by
  cases hf : f.isFinished with
  | true => rwa [poll_finished hf]
  | false =>
    cases (poll_polled connection now hf).outcome with
    | ends _ finished _ => exact finished
    | runsOut _ finished _ => exact finished
    | gives _ quiet => cases hnow.symm.trans quiet
    | waits quiet => cases hnow.symm.trans quiet

theorem polls_cons (f : Feed) (now : Moment) (times : List Moment) :
    f.polls connection (now :: times) = (f.poll connection now).polls connection times := rfl

/-- Polled at any times, a stream comes to what it comes to when it is asked to stop where the polls
first found this asked for. -/
theorem polls_total (times : List Moment) :
    (f.polls connection times).total connection (f.firing connection times) =
      f.total connection (f.firing connection times) := by
  induction times generalizing f with
  | nil => rfl
  | cons now times ih =>
    cases hf : f.isFinished with
    | true => rw [polls_finished hf]
    | false =>
      have hpoll := poll_total hf (heeds_firing connection now hf times)
      rw [← hpoll, firing_cons hf, polls_cons]
      cases hnow : now.fired with
      | true => rw [polls_finished (finished_of_fired hnow)]
      | false => exact ih

theorem polls_append (f : Feed) (times more : List Moment) :
    f.polls connection (times ++ more) = (f.polls connection times).polls connection more :=
  List.foldl_append

/-- Once a poll has found the request, the stream is finished. -/
theorem finished_of_any_fired {times : List Moment} (h : ∃ now ∈ times, now.fired = true) :
    (f.polls connection times).isFinished = true := by
  obtain ⟨now, hmem, hnow⟩ := h
  obtain ⟨before, later, rfl⟩ := List.append_of_mem hmem
  have hfinished : ((f.polls connection before).poll connection now).isFinished = true :=
    finished_of_fired hnow
  rw [polls_append, polls_cons, polls_finished hfinished]
  exact hfinished

theorem finished_of_prompt {times : List Moment}
    (h : ∀ now ∈ times, now.opened = true ∧ now.arrived = true)
    (hlength : f.left connection < times.length) :
    (f.polls connection times).isFinished = true := by
  induction times generalizing f with
  | nil => cases hlength
  | cons now times ih =>
    obtain ⟨⟨hopened, harrived⟩, h⟩ := List.forall_mem_cons.1 h
    have finishes : (f.poll connection now).isFinished = true →
        (f.polls connection (now :: times)).isFinished = true := fun hfinished => by
      rwa [polls_cons, polls_finished hfinished]
    cases hf : f.isFinished with
    | true => exact finishes (by rwa [poll_finished hf])
    | false =>
      cases (poll_polled connection now hf).outcome with
      | ends _ finished _ => exact finishes finished
      | runsOut _ finished _ => exact finishes finished
      | gives row quiet items left =>
        exact ih h (by rw [List.length_cons] at hlength; omega)
      | waits _ waiting => simp [hopened, harrived] at waiting

theorem sent_polls {times : List Moment} (hf : f.isUnopened = false) :
    (f.polls connection times).sent = f.sent := by
  induction times generalizing f with
  | nil => rfl
  | cons now times ih =>
    cases hfinished : f.isFinished with
    | true => rw [polls_finished hfinished]
    | false =>
      have hpoll := poll_polled connection now hfinished
      rw [polls_cons, ih hpoll.opened, hpoll.sent]
      obtain ⟨phase, items, fetched, sent⟩ := f
      cases phase <;> first | rfl | cases hf

/-- Nothing is sent without a command or if the first poll finds the request. -/
theorem sent_start (ready : Except QueryError Command) (now : Moment) (times : List Moment) :
    ((start ready).polls connection (now :: times)).sent =
      match ready with
      | .error _ => []
      | .ok command => if now.fired then [] else [command] := by
  have hpoll := poll_polled connection now (f := start ready) rfl
  rw [polls_cons, sent_polls hpoll.opened, hpoll.sent]
  cases ready <;> rfl

end Feed

namespace Plan

theorem prepare_error {plan : Plan} {i : PlanCall} {x : QueryError}
    (h : plan.prepare i = .error x) : ∃ cause, x = .execution cause := by
  rw [prepare] at h
  split at h
  · cases hb : plan.command.bind i.arguments <;> rw [hb] at h <;> cases h
    exact ⟨_, rfl⟩
  · cases h
    exact ⟨_, rfl⟩

theorem stream_result (plan : Plan) (i : PlanCall) (connection : Connection) :
    (plan.stream i connection).result =
      (Feed.start (plan.prepare i)).total connection i.cancels := by
  rw [stream, Feed.start]
  cases plan.prepare i with
  | error x => rfl
  | ok command =>
    simp only [Feed.total, Feed.rest, Feed.opened, List.length_nil, List.nil_append, Nat.zero_add]
    cases i.cancels.firedAt 0 with
    | true => rfl
    | false => cases connection.failure <;> rfl

theorem stream_stops (plan : Plan) (i : PlanCall) (connection : Connection) {α : Type}
    (read : Row → Except QueryError α) :
    Stops (plan.prepare i) connection i.cancels read
      ⟨⟨(plan.stream i connection).result.items.map (·.bind read),
        (plan.stream i connection).result.fetched⟩, (plan.stream i connection).sent⟩ := by
  refine ⟨fun x hx => ⟨prepare_error hx, ?_⟩, fun command hready hfired => ?_,
    fun command x hready hfired hfailure => ?_,
    fun command n hready hfired hfailure hpoint hn => ?_,
    fun command hready hfailure hpoint => ?_⟩
  · rw [stream, hx]
    rfl
  · rw [stream, hready, hfired]
    rfl
  · rw [stream, hready, hfired, hfailure]
    rfl
  · have hfires : i.cancels.point = some (0 + n) := by rwa [Nat.zero_add]
    have htake := takeRows_of_point hfires hn
    simp only [stream, hready, hfired, hfailure, htake]
    simp [Except.bind, Function.comp_def]
  · have hlater : ∀ n, i.cancels.point = some n →
        0 + (leadingRows connection.offers).length < n := by rwa [Nat.zero_add]
    have htake := takeRows_of_unfired hlater
    have hfired : i.cancels.firedAt 0 = false := Cancellation.not_firedAt fun n hn =>
      Nat.lt_of_le_of_lt (Nat.zero_le _) (hpoint n hn)
    simp only [stream, hready, hfired, hfailure, htake]
    cases firstFailure connection.offers <;> simp [Except.bind, Function.comp_def]

end Plan

namespace Provider

theorem prepare_callOf (plan : Plan) (signature : Signature) (e : Expr)
    (cancellation : Cancellation) : plan.prepare (callOf signature e cancellation) =
      plan.prepare (callOf signature e .never) := by
  rw [callOf, callOf]
  cases signature.isAsync <;> rfl

theorem mapItems_eq {α : Type} (m : EntityReader α) (context : EntityContext)
    (s : Streamed Row) : mapItems m context s =
      ⟨s.items.map (·.bind fun row => (m.read context row).mapError .cast), s.fetched⟩ := by
  rw [mapItems]
  congr 2
  funext item
  cases item <;> rfl

/-- What a feed polled at some times has given and taken, compared with the stream that is asked to
stop where these polls found the request: the same once it is finished, as it is when a poll found
the request or when enough polls did not have to wait, and then for good. -/
structure Follows {α : Type} (ready : Except QueryError Command) (connection : Connection)
    (read : Row → Except QueryError α) (times : List Moment) (streamed : Streamed α) : Prop where
  items : (((Feed.start ready).polls connection times).items.map (·.bind read)) <+: streamed.items
  fetched : ((Feed.start ready).polls connection times).fetched ≤ streamed.fetched
  whole : ((Feed.start ready).polls connection times).isFinished = true →
    ((Feed.start ready).polls connection times).items.map (·.bind read) = streamed.items ∧
      ((Feed.start ready).polls connection times).fetched = streamed.fetched
  forGood : ((Feed.start ready).polls connection times).isFinished = true → ∀ more,
    (Feed.start ready).polls connection (times ++ more) =
      (Feed.start ready).polls connection times
  stopped : (∃ now ∈ times, now.fired = true) →
    ((Feed.start ready).polls connection times).isFinished = true
  prompt : (∀ now ∈ times, now.opened = true ∧ now.arrived = true) →
    connection.offers.length < times.length →
    ((Feed.start ready).polls connection times).isFinished = true
  sent : ((Feed.start ready).polls connection times).sent =
    match times, ready with
    | now :: _, .ok command => if now.fired then [] else [command]
    | _, _ => []

theorem start_follows {ready : Except QueryError Command} {connection : Connection} {α : Type}
    (read : Row → Except QueryError α) (times : List Moment) {streamed : Streamed α}
    (h : streamed = ⟨((Feed.start ready).total connection
        ((Feed.start ready).firing connection times)).items.map (·.bind read),
      ((Feed.start ready).total connection ((Feed.start ready).firing connection times)).fetched⟩) :
    Follows ready connection read times streamed := by
  rw [← Feed.polls_total times] at h
  subst h
  refine ⟨?_, Nat.le_add_right _ _, fun hfinished => ?_, fun hfinished more => ?_,
    Feed.finished_of_any_fired, fun hprompt hlength => Feed.finished_of_prompt hprompt hlength, ?_⟩
  · rw [Feed.total, List.map_append]
    exact List.prefix_append _ _
  · rw [Feed.total_finished hfinished]
    exact ⟨rfl, rfl⟩
  · rw [Feed.polls_append, Feed.polls_finished hfinished]
  · cases times with
    | nil => rfl
    | cons now times =>
      rw [Feed.sent_start]
      cases ready <;> rfl

theorem isAsync_of_stream {s : Setting} {history : List Call} {e : Expr} {cached : KeptPlan}
    (h : (((ofSetting s).after history).plan e .stream).1 = .ok cached) :
    cached.signature.isAsync = true := by
  obtain ⟨-, plan, serial, hplan, rfl⟩ := plan_ok history h
  obtain ⟨f, command, -, -, rfl⟩ := Setting.planOf_ok hplan
  rw [Plan.callForm_ofRendered, CallForm.ofTypes_select]
  rfl

/-- A plan compiled for streaming yields one item for each row fetched before the first failure or
the request to stop, then the failure or the cancellation if that is why it stopped, and fetches
nothing after it; asked to stop before the start it sends nothing. So it does however it is polled:
the items given are the first of these, and they are all of them once the stream is finished. -/
theorem stream_stops_where_asked {s : Setting} (history : List Call) {e : Expr} {cached : KeptPlan}
    (h : (((ofSetting s).after history).plan e .stream).1 = .ok cached) (connection : Connection)
    {α : Type} (m : EntityReader α) :
    let ready := cached.plan.prepare (callOf cached.signature e .never)
    let read := fun row => (m.read ⟨cached.plan.noTracking⟩ row).mapError .cast
    ∃ stream : Cancellation → Ran (Streamed α),
      (∀ cancellation, (((ofSetting s).after history).stream e connection cancellation m).1 =
        ⟨.ok (stream cancellation).result, (stream cancellation).sent⟩) ∧
      (∀ cancellation, Stops ready connection cancellation read (stream cancellation)) ∧
      ∀ times : List Moment, Follows ready connection read times
        (stream ((Feed.start ready).firing connection times)).result := by
  intro ready read
  have hcancels : ∀ cancellation,
      (callOf cached.signature e cancellation).cancels = cancellation := fun cancellation => by
    rw [callOf, PlanCall.cancels, isAsync_of_stream h]
    rfl
  have hprepare : ∀ cancellation,
      cached.plan.prepare (callOf cached.signature e cancellation) = ready :=
    fun cancellation => prepare_callOf _ _ e cancellation
  refine ⟨fun cancellation =>
    let ran := cached.plan.stream (callOf cached.signature e cancellation) connection
    ⟨⟨ran.result.items.map (·.bind read), ran.result.fetched⟩, ran.sent⟩,
    fun cancellation => ?_, fun cancellation => ?_, fun times => start_follows read times ?_⟩
  · rw [stream, runPlan_fst, h]
    simp only [runFound, KeptPlan.stream, mapItems_eq]
    rfl
  · have hstops := cached.plan.stream_stops (callOf cached.signature e cancellation) connection read
    rwa [hprepare, hcancels] at hstops
  · simp only [Plan.stream_result, hprepare, hcancels]

/-- Two rows, a failure and another row. -/
def brokenOff : Connection :=
  ⟨none, [.ok ⟨[], [.int32 1]⟩, .ok ⟨[], [.int32 2]⟩, .error (.connection "lost"), .ok ⟨[], []⟩]⟩

/-- Asked to stop after one item, after more than there are, and before the start. -/
theorem ageOrId_stops_where_asked : ∃ command,
    let stream := fun cancellation =>
      ((ofSetting customers).stream (ageOrId 10 11 5 7) brokenOff cancellation (.ofType .row)).1
    stream (.afterItems 1) =
        ⟨.ok ⟨[.ok ⟨[], [.int32 1]⟩, .error .cancelled], 1⟩, [command]⟩ ∧
      stream (.afterItems 3) = ⟨.ok ⟨[.ok ⟨[], [.int32 1]⟩, .ok ⟨[], [.int32 2]⟩,
        .error (.execution (.connection "lost"))], 3⟩, [command]⟩ ∧
      stream .beforeCall = ⟨.ok ⟨[.error .cancelled], 0⟩, []⟩ := by
  have hready : (match ((ofSetting customers).plan (ageOrId 10 11 5 7) .stream).1 with
      | .ok cached =>
        (cached.plan.prepare (callOf cached.signature (ageOrId 10 11 5 7) .never)).toOption.isSome
      | .error _ => false) = true := by decide +kernel
  revert hready
  cases h : ((ofSetting customers).plan (ageOrId 10 11 5 7) .stream).1 with
  | error x => exact fun hready => absurd hready Bool.false_ne_true
  | ok cached =>
    intro hready
    dsimp only at hready
    obtain ⟨stream, hstream, stops, -⟩ :=
      stream_stops_where_asked (s := customers) [] h brokenOff (.ofType .row)
    revert hready stops
    cases cached.plan.prepare (callOf cached.signature (ageOrId 10 11 5 7) .never) with
    | error x => exact fun hready => absurd hready Bool.false_ne_true
    | ok command =>
      intro _ stops
      refine ⟨command, (hstream _).trans ?_, (hstream _).trans ?_, (hstream _).trans ?_⟩
      · rw [(stops (.afterItems 1)).cancelled command 1 rfl rfl rfl rfl (by decide)]
        rfl
      · rw [(stops (.afterItems 3)).ended command rfl rfl fun n hn => by cases hn; decide]
        rfl
      · rw [(stops .beforeCall).notStarted command rfl rfl]

end Provider

end SequenceQuery
