import Mathlib.Data.List.Induction
import PhpFrontEnd.Proofs.ShownEvents
import PhpFrontEnd.Writer.Tree

/-!
# The protocol of writers

Whoever sends events to a document builder may get them wrong in two ways: by stopping a node when
none is open, and by starting one when none is open any more, after the root. What is wrong with an
event depends on the events before it, and only the first such event counts, for what comes after a
misuse means little (`FirstMisuse`).

These notions are about events alone. A builder works differently: it keeps the open nodes with
what has been finished below them, a root, and one error. That its answers are told by the events
is proved here for all sequences of events, also for those that go on after a misuse
(`writers_follow_protocol`). A document that comes out in the end is lossless: read in the order of
the source, it shows the events it was made of, as long as no property is given twice.
-/

namespace PhpFrontEnd

namespace NodeEvent

/-! ## What events mean -/

/-- The number of open nodes after an event. Nothing happens to it if there is nothing to stop. -/
def openAfter (depth : Nat) : NodeEvent → Nat
  | .start .. => depth + 1
  | .stop => depth - 1

/-- The number of nodes that are open after some events. -/
def openNodes (events : List NodeEvent) : Nat := events.foldl openAfter 0

/-- Whether a node was stopped that stood in no other. -/
def RootStopped (events : List NodeEvent) : Prop :=
  ∃ before, before ++ [.stop] <+: events ∧ openNodes before = 1

/-- What is wrong with an event after the events before it. -/
inductive Misuse (before : List NodeEvent) : NodeEvent → DocumentError → Prop where
  | unexpectedStop (closed : openNodes before = 0) : Misuse before .stop .unexpectedStop
  | secondRoot {kind : String} {span : Span} {properties : List Property}
    (closed : openNodes before = 0) (root : RootStopped before) :
    Misuse before (.start kind span properties) .secondRoot

/-- Events none of which is wrong. -/
def Proper (events : List NodeEvent) : Prop :=
  ∀ before event error, before ++ [event] <+: events → ¬Misuse before event error

/-- What is wrong with the first event that is wrong. -/
def FirstMisuse (events : List NodeEvent) (error : DocumentError) : Prop :=
  ∃ before event, before ++ [event] <+: events ∧ Proper before ∧ Misuse before event error

/-- The number of nodes that an event starts outside of all others. -/
def rootsStarted (depth : Nat) : NodeEvent → Nat
  | .start .. => if depth = 0 then 1 else 0
  | .stop => 0

/-- The number of nodes that are started outside of all others, if `depth` nodes are open. -/
def topLevelAt (depth : Nat) : List NodeEvent → Nat
  | [] => 0
  | event :: rest => event.rootsStarted depth + topLevelAt (event.openAfter depth) rest

/-- The number of nodes that stand in no other. -/
def topLevelNodes (events : List NodeEvent) : Nat := topLevelAt 0 events

variable {events before : List NodeEvent} {event : NodeEvent} {error : DocumentError}

/-- The last event changes the number of open nodes as it does after any others. -/
theorem openNodes_concat (events : List NodeEvent) (event : NodeEvent) :
    openNodes (events ++ [event]) = event.openAfter (openNodes events) := by
  rw [openNodes, List.foldl_append]
  rfl

theorem not_concat_prefix_nil : ¬before ++ [event] <+: [] :=
  fun front => List.concat_ne_nil _ _ (List.prefix_nil.1 front)

/-- With one event more, nothing new comes first but what comes before that event. -/
theorem concat_prefix_concat_iff {last : NodeEvent} : before ++ [event] <+: events ++ [last] ↔
    before ++ [event] <+: events ∨ before = events ∧ event = last := by
  rw [List.prefix_concat_iff, List.append_singleton_inj, or_comm]

theorem not_rootStopped_nil : ¬RootStopped [] := by
  rintro ⟨before, front, -⟩
  exact not_concat_prefix_nil front

/-- A root is stopped by a `stop` while it alone is open. -/
theorem rootStopped_concat : RootStopped (events ++ [event]) ↔
    RootStopped events ∨ event = .stop ∧ openNodes events = 1 := by
  constructor
  · rintro ⟨before, front, one⟩
    rcases concat_prefix_concat_iff.1 front with front | ⟨rfl, rfl⟩
    · exact .inl ⟨before, front, one⟩
    · exact .inr ⟨rfl, one⟩
  · rintro (⟨before, front, one⟩ | ⟨rfl, one⟩)
    · exact ⟨before, concat_prefix_concat_iff.2 (.inl front), one⟩
    · exact ⟨events, List.prefix_refl _, one⟩

theorem proper_nil : Proper [] := fun _ _ _ front => absurd front not_concat_prefix_nil

/-- Events stay proper as long as the next one is no misuse. -/
theorem proper_concat :
    Proper (events ++ [event]) ↔ Proper events ∧ ∀ error, ¬Misuse events event error := by
  constructor
  · intro h
    refine ⟨fun before event error front => ?_, fun error => h _ _ error (List.prefix_refl _)⟩
    exact h before event error (concat_prefix_concat_iff.2 (.inl front))
  · rintro ⟨proper, right⟩ before event error front
    rcases concat_prefix_concat_iff.1 front with front | ⟨rfl, rfl⟩
    · exact proper before event error front
    · exact right error

/-- The first misuse stays the first, whatever comes after it. -/
theorem firstMisuse_concat : FirstMisuse (events ++ [event]) error ↔
    FirstMisuse events error ∨ Proper events ∧ Misuse events event error := by
  constructor
  · rintro ⟨before, wrong, front, proper, misuse⟩
    rcases concat_prefix_concat_iff.1 front with front | ⟨rfl, rfl⟩
    · exact .inl ⟨before, wrong, front, proper, misuse⟩
    · exact .inr ⟨proper, misuse⟩
  · rintro (⟨before, wrong, front, proper, misuse⟩ | ⟨proper, misuse⟩)
    · exact ⟨before, wrong, concat_prefix_concat_iff.2 (.inl front), proper, misuse⟩
    · exact ⟨events, event, List.prefix_refl _, proper, misuse⟩

/-- A `stop` is wrong if there is nothing to stop. -/
theorem misuse_stop_iff : (∃ error, Misuse events .stop error) ↔ openNodes events = 0 := by
  constructor
  · rintro ⟨error, ⟨closed⟩⟩
    exact closed
  · exact fun closed => ⟨_, .unexpectedStop closed⟩

/-- A `start` is wrong if it would begin a second root. -/
theorem misuse_start_iff {kind : String} {span : Span} {properties : List Property} :
    (∃ error, Misuse events (.start kind span properties) error) ↔
      openNodes events = 0 ∧ RootStopped events := by
  constructor
  · rintro ⟨error, misuse⟩
    cases misuse with
    | secondRoot closed root => exact ⟨closed, root⟩
  · exact fun ⟨closed, root⟩ => ⟨_, .secondRoot closed root⟩

/-! ## Balance -/

/-- Events that stop only what is open, if `depth` nodes are open before them. -/
def StopsOpen (depth : Nat) (events : List NodeEvent) : Prop :=
  ∀ before, before ++ [.stop] <+: events → before.foldl openAfter depth ≠ 0

theorem stopsOpen_nil {depth : Nat} : StopsOpen depth [] :=
  fun _ front => absurd front not_concat_prefix_nil

/-- Events that stop open nodes only, taken from the front. -/
theorem stopsOpen_cons {depth : Nat} : StopsOpen depth (event :: events) ↔
    (event = .stop → depth ≠ 0) ∧ StopsOpen (event.openAfter depth) events := by
  constructor
  · intro h
    refine ⟨fun stop => h [] ?_, fun before front => h (event :: before) ?_⟩
    · rw [stop]
      exact List.prefix_append [.stop] events
    · exact List.cons_prefix_cons.2 ⟨rfl, front⟩
  · rintro ⟨first, rest⟩ before front
    cases before with
    | nil => exact first (List.cons_prefix_cons.1 front).1.symm
    | cons other before =>
      obtain ⟨rfl, within⟩ := List.cons_prefix_cons.1 front
      exact rest before within

/-- The same, taken from the back, where a builder adds them. -/
theorem stopsOpen_concat {depth : Nat} : StopsOpen depth (events ++ [event]) ↔
    StopsOpen depth events ∧ (event = .stop → events.foldl openAfter depth ≠ 0) := by
  constructor
  · intro h
    refine ⟨fun before front => h before (concat_prefix_concat_iff.2 (.inl front)), ?_⟩
    rintro rfl
    exact h events (List.prefix_refl _)
  · rintro ⟨earlier, last⟩ before front
    rcases concat_prefix_concat_iff.1 front with front | ⟨rfl, stop⟩
    · exact earlier before front
    · exact last stop.symm

/-- Balanced events stop only what is open, and leave nothing open. -/
theorem balancedAt_iff {depth : Nat} :
    balancedAt depth events ↔ StopsOpen depth events ∧ events.foldl openAfter depth = 0 := by
  induction events generalizing depth with
  | nil => simp [balancedAt, stopsOpen_nil]
  | cons event events ih =>
    rw [stopsOpen_cons, List.foldl_cons]
    cases event with
    | start kind span properties => simp [balancedAt, ih, openAfter]
    | stop => cases depth <;> simp [balancedAt, ih, openAfter]

/-- The last event starts a root if no node is open in front of it. -/
theorem topLevelAt_concat (depth : Nat) (events : List NodeEvent) (event : NodeEvent) :
    topLevelAt depth (events ++ [event]) =
      topLevelAt depth events + event.rootsStarted (events.foldl openAfter depth) := by
  induction events generalizing depth with
  | nil => exact Nat.add_comm _ _
  | cons first events ih =>
    rw [List.cons_append, topLevelAt, topLevelAt, ih, Nat.add_assoc]
    rfl

theorem topLevelNodes_concat (events : List NodeEvent) (event : NodeEvent) :
    topLevelNodes (events ++ [event]) =
      topLevelNodes events + event.rootsStarted (openNodes events) :=
  topLevelAt_concat 0 events event

/-- Events that stop only what is open begin a root, if there are any. -/
theorem topLevelNodes_eq_zero (h : StopsOpen 0 events) :
    topLevelNodes events = 0 ↔ events = [] := by
  cases events with
  | nil => exact iff_of_true rfl rfl
  | cons event events =>
    cases event with
    | start kind span properties => simp [topLevelNodes, topLevelAt, rootsStarted]
    | stop => exact absurd rfl ((stopsOpen_cons.1 h).1 rfl)

/-- With nothing open, a root has been stopped if there have been events. -/
theorem rootStopped_iff (h : StopsOpen 0 events) (closed : openNodes events = 0) :
    RootStopped events ↔ events ≠ [] := by
  constructor
  · rintro root rfl
    exact not_rootStopped_nil root
  · intro ne
    obtain ⟨before, last, rfl⟩ := List.eq_nil_or_concat events |>.resolve_left ne
    rw [List.concat_eq_append] at *
    rw [openNodes_concat] at closed
    cases last with
    | start => cases closed
    | stop =>
      -- it is the last event that stopped the root
      have ne : openNodes before ≠ 0 := (stopsOpen_concat.1 h).2 rfl
      refine rootStopped_concat.2 (.inr ⟨rfl, ?_⟩)
      change openNodes before - 1 = 0 at closed
      omega

/-- Proper events stop only what is open, and have one root at most. -/
theorem proper_iff : Proper events ↔ StopsOpen 0 events ∧ topLevelNodes events ≤ 1 := by
  induction events using List.reverseRecOn with
  | nil => exact iff_of_true proper_nil ⟨stopsOpen_nil, Nat.zero_le 1⟩
  | append_singleton events event ih =>
    rw [proper_concat, ← not_exists, ih, stopsOpen_concat, topLevelNodes_concat]
    change _ ↔ (_ ∧ (_ → openNodes events ≠ 0)) ∧ _
    cases event with
    | stop =>
      rw [misuse_stop_iff]
      simp only [rootsStarted, Nat.add_zero, forall_const]
      tauto
    | start kind span properties =>
      rw [misuse_start_iff]
      by_cases closed : openNodes events = 0
      · -- with nothing open, a second root is one after any event
        have one : (start kind span properties).rootsStarted (openNodes events) = 1 := if_pos closed
        rw [one]
        constructor
        · rintro ⟨⟨stops, -⟩, right⟩
          have nothing : events = [] := by
            by_contra ne
            exact right ⟨closed, (rootStopped_iff stops closed).2 ne⟩
          exact ⟨⟨stops, nofun⟩, Nat.le_of_eq (by rw [(topLevelNodes_eq_zero stops).2 nothing])⟩
        · rintro ⟨⟨stops, -⟩, le⟩
          have nothing : events = [] := (topLevelNodes_eq_zero stops).1 (by omega)
          refine ⟨⟨stops, by omega⟩, ?_⟩
          rintro ⟨-, root⟩
          exact (rootStopped_iff stops closed).1 root nothing
      · simp [rootsStarted, closed]

/-- Events are proper, leave nothing open and are not empty, exactly if they are balanced and have
one root. -/
theorem balanced_iff : balanced events ∧ topLevelNodes events = 1 ↔
    Proper events ∧ openNodes events = 0 ∧ events ≠ [] := by
  rw [balanced, balancedAt_iff, proper_iff]
  change (_ ∧ openNodes events = 0) ∧ _ ↔ _
  constructor
  · rintro ⟨⟨stops, closed⟩, one⟩
    refine ⟨⟨stops, Nat.le_of_eq one⟩, closed, fun nothing => ?_⟩
    rw [(topLevelNodes_eq_zero stops).2 nothing] at one
    cases one
  · rintro ⟨⟨stops, le⟩, closed, ne⟩
    have some := mt (topLevelNodes_eq_zero stops).1 ne
    exact ⟨⟨stops, closed⟩, by omega⟩

end NodeEvent

/-! ## What a builder makes of events -/

namespace DocumentBuilder

open NodeEvent

variable {builder : DocumentBuilder} {events : List NodeEvent} {event : NodeEvent}

/-- Puts what has been finished below the innermost open node, or makes it the root. -/
def attach (builder : DocumentBuilder) (document : Json) : DocumentBuilder :=
  match builder.stack with
  | [] => { builder with root := some document }
  | parent :: rest =>
    { builder with stack := { parent with children := parent.children ++ [document] } :: rest }

theorem stop_of_cons {node : OpenNode} {rest : List OpenNode} (h : builder.stack = node :: rest) :
    builder.stop = { builder with stack := rest }.attach node.toJson := by
  rw [stop, h]
  cases rest <;> rfl

theorem stop_of_nil (h : builder.stack = []) : builder.stop = builder.fail .unexpectedStop := by
  rw [stop, h]

/-- The builder after some events. -/
def built (events : List NodeEvent) : DocumentBuilder := events.foldl add {}

theorem built_concat (events : List NodeEvent) (event : NodeEvent) :
    built (events ++ [event]) = (built events).add event := by
  rw [built, List.foldl_append]
  rfl

/-- A started node is the innermost one. -/
theorem stack_start (builder : DocumentBuilder) (kind : String) (span : Span)
    (properties : List Property) :
    (builder.start kind span properties).stack = { kind, span, properties } :: builder.stack := by
  rw [start]
  split <;> rfl

theorem root_start (builder : DocumentBuilder) (kind : String) (span : Span)
    (properties : List Property) : (builder.start kind span properties).root = builder.root := by
  rw [start]
  split <;> rfl

/-- The stack of a builder is as high as nodes are open, for one event. -/
theorem depth_add (builder : DocumentBuilder) (event : NodeEvent) :
    (builder.add event).depth = event.openAfter builder.depth := by
  cases event with
  | start kind span properties =>
    exact congrArg List.length (stack_start builder kind span properties)
  | stop =>
    rcases eq : builder.stack with _ | ⟨node, rest⟩
    · rw [add, stop_of_nil eq]
      simp [depth, fail, openAfter, eq]
    · rw [add, stop_of_cons eq, depth, depth, eq]
      cases rest <;> rfl

/-- A builder has a root once an outermost node was stopped. -/
theorem isSome_root_add (builder : DocumentBuilder) (event : NodeEvent) :
    (builder.add event).root.isSome ↔
      builder.root.isSome ∨ event = .stop ∧ builder.depth = 1 := by
  cases event with
  | start kind span properties =>
    rw [add, root_start]
    simp
  | stop =>
    rcases eq : builder.stack with _ | ⟨node, rest⟩
    · rw [add, stop_of_nil eq]
      simp [depth, fail, eq]
    · rw [add, stop_of_cons eq, depth, eq]
      cases rest <;> simp [attach]

/-- The stack of a builder is as high as nodes are open after all events. -/
theorem depth_built (events : List NodeEvent) : (built events).depth = openNodes events := by
  induction events using List.reverseRecOn with
  | nil => rfl
  | append_singleton events event ih => rw [built_concat, depth_add, ih, openNodes_concat]

/-- The root of a builder is there if the events stop one. -/
theorem isSome_root_built : (built events).root.isSome ↔ RootStopped events := by
  induction events using List.reverseRecOn with
  | nil => exact iff_of_false nofun not_rootStopped_nil
  | append_singleton events event ih =>
    rw [built_concat, isSome_root_add, ih, depth_built, rootStopped_concat]

/-- What a builder finds wrong with an event. -/
def misuse? (builder : DocumentBuilder) : NodeEvent → Option DocumentError
  | .start .. => if builder.depth = 0 ∧ builder.root.isSome then some .secondRoot else none
  | .stop => if builder.depth = 0 then some .unexpectedStop else none

theorem isEmpty_stack (builder : DocumentBuilder) :
    builder.stack.isEmpty = decide (builder.depth = 0) := by
  rw [depth]
  cases builder.stack <;> rfl

/-- A builder remembers what is wrong with an event unless something was wrong before. -/
theorem error_add (builder : DocumentBuilder) (event : NodeEvent) :
    (builder.add event).error = builder.error.or (builder.misuse? event) := by
  cases event with
  | start kind span properties =>
    rw [add, start, misuse?, isEmpty_stack]
    by_cases wrong : builder.depth = 0 ∧ builder.root.isSome
    · simp [wrong, fail]
    · simp only [Bool.and_eq_true, decide_eq_true_eq, wrong, if_false, Option.or_none]
  | stop =>
    rw [add, misuse?]
    rcases eq : builder.stack with _ | ⟨node, rest⟩
    · simp [stop_of_nil eq, depth, fail, eq]
    · have some : (node :: rest).length ≠ 0 := Nat.succ_ne_zero _
      rw [stop_of_cons eq, depth, eq, if_neg some, Option.or_none]
      cases rest <;> rfl

/-- A builder tells a misuse from its stack and root as the events tell it. -/
theorem misuse?_built {error : DocumentError} :
    (built events).misuse? event = some error ↔ Misuse events event error := by
  cases event with
  | start kind span properties =>
    rw [misuse?, depth_built, Option.ite_none_right_eq_some, isSome_root_built]
    constructor
    · rintro ⟨⟨closed, root⟩, eq⟩
      obtain rfl := Option.some.inj eq
      exact .secondRoot closed root
    · intro misuse
      cases misuse with
      | secondRoot closed root => exact ⟨⟨closed, root⟩, rfl⟩
  | stop =>
    rw [misuse?, depth_built, Option.ite_none_right_eq_some]
    constructor
    · rintro ⟨closed, eq⟩
      obtain rfl := Option.some.inj eq
      exact .unexpectedStop closed
    · rintro ⟨closed⟩
      exact ⟨closed, rfl⟩

/-- A builder has no error if no event was wrong. -/
theorem error_eq_none_iff : (built events).error = none ↔ Proper events := by
  induction events using List.reverseRecOn with
  | nil => exact iff_of_true rfl proper_nil
  | append_singleton events event ih =>
    rw [built_concat, error_add, Option.or_eq_none_iff, ih, proper_concat,
      Option.eq_none_iff_forall_ne_some]
    simp only [ne_eq, misuse?_built]

/-- The error of a builder is the first misuse. -/
theorem error_eq_some_iff {error : DocumentError} :
    (built events).error = some error ↔ FirstMisuse events error := by
  induction events using List.reverseRecOn with
  | nil =>
    refine iff_of_false nofun ?_
    rintro ⟨before, event, front, -⟩
    exact not_concat_prefix_nil front
  | append_singleton events event ih =>
    rw [built_concat, error_add, Option.or_eq_some_iff, ih, error_eq_none_iff, misuse?_built,
      firstMisuse_concat]

/-! ## What comes out in the end -/

/-- Some events are proper, or one of them is the first that is wrong. -/
theorem proper_or_firstMisuse (events : List NodeEvent) :
    Proper events ∨ ∃ error, FirstMisuse events error := by
  rcases eq : (built events).error with _ | error
  · exact .inl (error_eq_none_iff.1 eq)
  · exact .inr ⟨error, error_eq_some_iff.1 eq⟩

/-- The first misuse is what a builder answers in the end. -/
theorem finish_of_firstMisuse {error : DocumentError} (h : FirstMisuse events error) :
    (built events).finish = .error error := by
  rw [finish, error_eq_some_iff.2 h]

theorem finish_of_open (h : Proper events) (ne : openNodes events ≠ 0) :
    (built events).finish = .error (.unclosed (openNodes events)) := by
  rw [finish, error_eq_none_iff.2 h, isEmpty_stack, depth_built]
  simp [ne]

/-- If nothing was wrong and nothing is open, some node has become the root. -/
theorem finish_of_closed (h : Proper events) (closed : openNodes events = 0) (ne : events ≠ []) :
    ∃ document, (built events).root = some document ∧ (built events).finish = .ok document := by
  have root : RootStopped events := (rootStopped_iff (proper_iff.1 h).1 closed).2 ne
  obtain ⟨document, root⟩ := Option.isSome_iff_exists.1 (isSome_root_built.2 root)
  refine ⟨document, root, ?_⟩
  rw [finish, error_eq_none_iff.2 h, isEmpty_stack, depth_built, root]
  simp [closed]

/-- A document comes out if the events are proper, close all nodes and are not none at all. -/
theorem finish_eq_ok_iff : (∃ document, (built events).finish = .ok document) ↔
    Proper events ∧ openNodes events = 0 ∧ events ≠ [] := by
  constructor
  · rintro ⟨document, ok⟩
    rcases proper_or_firstMisuse events with proper | ⟨error, misuse⟩
    · refine ⟨proper, ?_, ?_⟩
      · by_contra ne
        rw [finish_of_open proper ne] at ok
        cases ok
      · rintro rfl
        cases ok
    · rw [finish_of_firstMisuse misuse] at ok
      cases ok
  · rintro ⟨proper, closed, ne⟩
    obtain ⟨document, -, ok⟩ := finish_of_closed proper closed ne
    exact ⟨document, ok⟩

/-! ## Documents show what they were made of -/

/-- What open nodes show: each comes before those inside it. -/
inductive StackShows : List OpenNode → List NodeEvent → Prop where
  | nil : StackShows [] []
  | cons {node : OpenNode} {rest : List OpenNode} {outer own : List NodeEvent}
    (outside : StackShows rest outer) (top : node.Shows own) :
    StackShows (node :: rest) (outer ++ own)

/-- A builder that holds all that it was sent: in the open nodes at first, and in the root once all
nodes are stopped. -/
inductive Holds (builder : DocumentBuilder) (events : List NodeEvent) : Prop where
  | building (root : builder.root = none) (shows : StackShows builder.stack events)
  | finished {document : Json} (root : builder.root = some document) (stack : builder.stack = [])
    (shows : document.shown? = some (events.map NodeEvent.shown))

/-- The outermost node becomes the root, any other a child of the node around it. -/
theorem Holds.attach {outer own : List NodeEvent} {document : Json} (root : builder.root = none)
    (around : StackShows builder.stack outer)
    (shows : document.shown? = some (own.map NodeEvent.shown)) :
    (builder.attach document).Holds (outer ++ own) := by
  rw [DocumentBuilder.attach]
  rcases eq : builder.stack with _ | ⟨parent, rest⟩
  · rw [eq] at around
    cases around
    exact .finished rfl rfl shows
  · rw [eq] at around
    cases around with
    | cons outside top =>
      rw [List.append_assoc]
      exact .building root (.cons outside (top.adopt shows))

/-- Whatever is added that is not wrong is held as well. -/
theorem Holds.add (h : builder.Holds events) (right : builder.misuse? event = none)
    (distinct : event.Distinct) : (builder.add event).Holds (events ++ [event]) := by
  cases event with
  | start kind span properties =>
    cases h with
    | building root shows =>
      refine .building ((root_start builder kind span properties).trans root) ?_
      rw [DocumentBuilder.add, stack_start]
      exact .cons shows (.started distinct)
    | finished root stack shows =>
      -- this would be a second root
      simp [misuse?, depth, stack, root] at right
  | stop =>
    rcases eq : builder.stack with _ | ⟨node, rest⟩
    · simp [misuse?, depth, eq] at right
    · rw [DocumentBuilder.add, stop_of_cons eq]
      cases h with
      | building root shows =>
        rw [eq] at shows
        cases shows with
        | cons outside top =>
          rw [List.append_assoc]
          exact .attach root outside top.toJson
      | finished root stack shows =>
        rw [eq] at stack
        cases stack

/-- A builder holds what it was sent, if nothing was wrong and no property was given twice. -/
theorem holds_built (h : Proper events) (distinct : ∀ event ∈ events, event.Distinct) :
    (built events).Holds events := by
  induction events using List.reverseRecOn with
  | nil => exact .building rfl .nil
  | append_singleton events event ih =>
    obtain ⟨proper, right⟩ := proper_concat.1 h
    rw [List.forall_mem_append, List.forall_mem_singleton] at distinct
    have right : (built events).misuse? event = none :=
      Option.eq_none_iff_forall_ne_some.2 fun error eq => right error (misuse?_built.1 eq)
    rw [built_concat]
    exact (ih proper distinct.1).add right distinct.2

/-- A document that comes out in the end shows all events. -/
theorem shown?_of_finish {document : Json} (ok : (built events).finish = .ok document)
    (distinct : ∀ event ∈ events, event.Distinct) :
    document.shown? = some (events.map NodeEvent.shown) := by
  obtain ⟨proper, closed, ne⟩ := finish_eq_ok_iff.1 ⟨document, ok⟩
  obtain ⟨other, root, finish⟩ := finish_of_closed proper closed ne
  obtain rfl : other = document := Except.ok.inj (finish.symm.trans ok)
  cases holds_built proper distinct with
  | building none shows =>
    -- with nothing open there is a root already
    rw [root] at none
    cases none
  | finished found stack shows =>
    rw [root] at found
    rwa [Option.some.inj found]

/-! ## The protocol -/

/-- What a document builder and a recorder tell when both were given the same events. -/
structure FollowsProtocol (events : List NodeEvent) (builder : DocumentBuilder)
    (recorded : List NodeEvent) : Prop where
  /-- all events are recorded -/
  kept : recorded = events
  depth : builder.depth = openNodes events
  /-- nothing is wrong, or one of two things is wrong first -/
  decided : Proper events ∨ FirstMisuse events .unexpectedStop ∨ FirstMisuse events .secondRoot
  /-- what is wrong first is told before all else -/
  misused : ∀ error, FirstMisuse events error → builder.finish = .error error
  unclosed : Proper events → openNodes events ≠ 0 →
    builder.finish = .error (.unclosed (openNodes events))
  empty : events = [] → builder.finish = .error .empty
  finished : Proper events → openNodes events = 0 → events ≠ [] →
    ∃ document, builder.finish = .ok document
  /-- the recorder can tell whether there is a document -/
  balanced : (∃ document, builder.finish = .ok document) ↔
    balanced recorded ∧ topLevelNodes recorded = 1
  /-- a document shows all that was recorded -/
  lossless : ∀ document, builder.finish = .ok document → (∀ event ∈ events, event.Distinct) →
    document.shown? = some (recorded.map NodeEvent.shown)

end DocumentBuilder

/-- **What writers are sent is what they answer by.** Whatever the events are that a document
builder and a recorder are both given, also after something was wrong, the builder tells the number
of open nodes, and in the end the first misuse, or else how many nodes are open, or else that there
was none. Otherwise it gives a document, and then the recorded events are balanced and have one
root. If no property is given twice, the document shows all the events that were recorded. -/
theorem writers_follow_protocol (events : List NodeEvent) :
    DocumentBuilder.FollowsProtocol events (events.foldl NodeWriter.add ({} : DocumentBuilder))
      (events.foldl NodeWriter.add (#[] : Array NodeEvent)).toList := by
  have recorded : (events.foldl NodeWriter.add (#[] : Array NodeEvent)).toList = events := by
    change (events.foldl Array.push #[]).toList = events
    simp
  rw [recorded]
  change DocumentBuilder.FollowsProtocol events (DocumentBuilder.built events) events
  exact {
    kept := rfl
    depth := DocumentBuilder.depth_built events
    decided := by
      rcases DocumentBuilder.proper_or_firstMisuse events with proper | ⟨error, misuse⟩
      · exact .inl proper
      · obtain ⟨before, event, -, -, wrong⟩ := id misuse
        cases wrong with
        | unexpectedStop => exact .inr (.inl misuse)
        | secondRoot => exact .inr (.inr misuse)
    misused := fun error => DocumentBuilder.finish_of_firstMisuse
    unclosed := DocumentBuilder.finish_of_open
    empty := by rintro rfl; rfl
    finished := fun proper closed ne =>
      (DocumentBuilder.finish_of_closed proper closed ne).imp fun _ => And.right
    balanced := DocumentBuilder.finish_eq_ok_iff.trans NodeEvent.balanced_iff.symm
    lossless := fun _ => DocumentBuilder.shown?_of_finish }

end PhpFrontEnd
