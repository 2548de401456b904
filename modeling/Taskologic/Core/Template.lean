import Taskologic.Core.Deps
import Taskologic.Core.Task

/-!
# Task templates

A template is a saved draft on a board, used to stamp out recurring kinds of work. Its options prefill the
start and due dates and name other templates that are stamped out alongside. `expansionOrder` is the order
in which these are stamped out, dependencies first, and `prefillAnchors` the moment each of them counts its
prefills from.
-/

set_option autoImplicit false
set_option relaxedAutoImplicit false

namespace Taskologic.Core

open Library

/-- How many finished tasks it takes before their average is trusted. -/
structure FromAverage where
  minSamples : ℕ
  deriving DecidableEq, Repr

structure TemplateOptions where
  startPrefill : Option Offset
  /-- The fallback too when there is not enough history for `dueFromAverage`. -/
  duePrefill : Option Offset
  dueFromAverage : Option FromAverage
  /-- Other templates on the same board, stamped out too. -/
  depTemplates : List TemplateId
  deriving DecidableEq, Repr

/-- `TemplateOptions::default`. -/
def TemplateOptions.default : TemplateOptions := ⟨none, none, none, []⟩

namespace TemplateOptions

variable (options : TemplateOptions)

/-- The start date a task stamped out now begins with. -/
def startFor (now : Instant) : Option Instant := options.startPrefill.bind fun offset ↦ offset.after now

/-- The due date the average gives, if it is trusted and there is a start date to add it to. `history` is
the average and how many finished tasks it is over. -/
def dueByAverage (start : Option Instant) (history : Option (ℤ × ℕ)) : Option Instant :=
  options.dueFromAverage.bind fun rule ↦ start.bind fun start ↦ history.bind fun (average, samples) ↦
    if rule.minSamples ≤ samples then checkedAdd start average else none

/-- The due date to go with a start date. -/
def dueFor (now : Instant) (start : Option Instant) (history : Option (ℤ × ℕ)) : Option Instant :=
  (options.dueByAverage start history).or (options.duePrefill.bind fun offset ↦ offset.after now)

end TemplateOptions

structure Template where
  id : TemplateId
  /-- Six characters a barcode can name the template by. -/
  shortId : ShortId
  boardId : BoardId
  /-- Whoever saved it. -/
  ownerUid : Uid
  name : Text
  draft : TaskDraft
  options : TemplateOptions
  deriving DecidableEq, Repr

inductive TemplateError where
  | selfDependency
  | notOnBoard (template : TemplateId)
  | cycle (template : TemplateId)
  | prefillTooLarge
  deriving DecidableEq, Repr

/-- The dependencies among some templates, one edge for each entry of a list. -/
def templateEdges (templates : List Template) : List (TemplateId × TemplateId) :=
  templates.flatMap fun template ↦ template.options.depTemplates.map fun dep ↦ (template.id, dep)

/-! ### What is stamped out -/

/-- How far a walk has come: the templates it is done with, those it is still inside of, and the order so
far. -/
structure Walk where
  done : List TemplateId
  onStack : List TemplateId
  out : List TemplateId

/-- Walks the dependencies of a template first and then emits it. One that was emitted already or is being
walked is left alone. A path that never comes back to itself has no more edges than there are, so that
many turns and two more are enough. -/
def walk (depsOf : List (TemplateId × TemplateId)) : ℕ → TemplateId → Walk → Walk
  | 0, _, state => state
  | fuel + 1, template, state =>
    if template ∈ state.done ∨ template ∈ state.onStack then state
    else
      let inner := (successors depsOf template).foldl (fun state dep ↦ walk depsOf fuel dep state)
        { state with onStack := template :: state.onStack }
      ⟨template :: inner.done, inner.onStack.erase template, inner.out ++ [template]⟩

/-- Every template that has to be stamped out before `root`, dependencies first and each one once. -/
def expansionOrder (depsOf : List (TemplateId × TemplateId)) (root : TemplateId) :
    List TemplateId :=
  (walk depsOf (depsOf.length + 2) root ⟨[], [], []⟩).out.dropLast

/-- A template hands its start down to those it depends on; one that several need goes with the
earliest. -/
def handDown (depsOf : List (TemplateId × TemplateId)) (anchors : TemplateId → Option Instant)
    (template : TemplateId) (start : Instant) (id : TemplateId) : Option Instant :=
  if id ∈ successors depsOf template then
    some ((anchors id).elim start fun anchor ↦ min anchor start)
  else anchors id

/-- The options of a template among some. -/
def optionsOf (templates : List Template) (id : TemplateId) : Option TemplateOptions :=
  (templates.find? fun template ↦ template.id == id).map Template.options

/-- The moment each dependency counts its prefills from when `root` is stamped out with a task starting at
`rootStart`. -/
def prefillAnchors (templates : List Template) (root : TemplateId) (rootStart : Instant) :
    TemplateId → Option Instant :=
  (expansionOrder (templateEdges templates) root).reverse.foldl (fun anchors id ↦
    let anchor := (anchors id).getD rootStart
    let start := ((optionsOf templates id).bind fun options ↦ options.startFor anchor).getD anchor
    handDown (templateEdges templates)
      (fun other ↦ if other = id then some anchor else anchors other) id start)
    (handDown (templateEdges templates) (fun _ ↦ none) root rootStart)

end Taskologic.Core
