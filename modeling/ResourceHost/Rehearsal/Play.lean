import ResourceHost.Cache.Threads
import ResourceHost.Rehearsal.Step

/-!
# Playing a rehearsal

The steps of a rehearsal are played one after another.  Each is the part of an
actor, and its program is a thread.  When the thread comes to a callback that
is told of, the telling is noted, and the actor goes through the steps of every
hook that waits for the callback before the thread moves on.  A hook waits
once.  Every step aside is the part of an actor of its own.

One actor moves at a time, until it is through or blocked.  An actor that
starts another waits until that one is through or blocked, and then lets those
that were blocked go on as far as they can.
-/

namespace ResourceHost.Rehearsal

/-- What is noted of a callback. -/
inductive Event where
  /-- The callback, with what is told of it. -/
  | told (cue : Cue) (h : Handle) (text : String)
  /-- The answers of the steps that were gone through within the callback. -/
  | hook (cue : Cue) (h : Handle) (answers : List Answer)

/-! ### Actors -/

/-- Something that an actor has under way. -/
inductive Frame where
  /-- Steps to go through, for a hook or as the actor's own part.  The latest
  answer stands first. -/
  | steps (hook : Option (Cue × Handle)) (answers : List Answer)
      (todo : List Step)
  /-- The program of a step, which is a thread. -/
  | program (thread : Nat)
  /-- Loads of a package that have to be over first. -/
  | await (p : NameId) (loads : List Nat)

/-- An actor: what it has under way.  The innermost stands first; every other
waits for the one before it. -/
structure Actor where
  frames : List Frame

namespace Actor

/-- The actor whose part is one step. -/
def ofStep (step : Step) : Actor := ⟨[.steps none [] [step]]⟩

/-- The answer of an actor that is through. -/
def answer? (a : Actor) : Option Answer :=
  match a.frames with
  | [.steps none (answer :: _) []] => some answer
  | _ => none

end Actor

/-- A step under way. -/
structure Play where
  machine : Machine Ending
  props : Props
  /-- The latest event stands first. -/
  events : List Event := []
  /-- The actors in the order of their start. -/
  actors : List Actor
  /-- The actors whose turn it is.  Each waits for the one that stands before
  it. -/
  turns : List Nat
  /-- The actors that were blocked.  The one that has waited longest stands
  first. -/
  blocked : List Nat := []

namespace Play

/-- The play of one step. -/
def ofStep (step : Step) (s : Stage) : Play :=
  ⟨⟨s.cache, []⟩, s.props, [], [.ofStep step], [0], []⟩

/-- Notes an event. -/
def note (p : Play) (e : Event) : Play := { p with events := e :: p.events }

/-- What an actor has under way. -/
def frames (p : Play) (k : Nat) : List Frame :=
  (p.actors[k]?.map Actor.frames).getD []

/-- Sets what an actor has under way. -/
def setFrames (p : Play) (k : Nat) (frames : List Frame) : Play :=
  { p with actors := p.actors.set k ⟨frames⟩ }

/-- Starts an actor, whose turn it is then. -/
def enter (p : Play) (step : Step) : Play :=
  { p with
    actors := p.actors ++ [.ofStep step]
    turns := p.actors.length :: p.turns }

/-- Starts a thread for an actor. -/
def begin (p : Play) (k : Nat) (program : Program Ending) (outer : List Frame) :
    Play :=
  { p with machine := p.machine.start program }.setFrames k
    (.program p.machine.threads.length :: outer)

/-- Answers the step that an actor is at. -/
def reply (p : Play) (k : Nat) (answer : Answer) : (outer : List Frame) → Play
  | .steps hook answers (_ :: todo) :: outer =>
    p.setFrames k (.steps hook (answer :: answers) todo :: outer)
  | outer => p.setFrames k outer

/-- Takes out a thread that is over, unless others were started after it. -/
def retire (p : Play) (i : Nat) : Play :=
  let threads := p.machine.threads
  let left := if i + 1 = threads.length then threads.take i else threads
  { p with machine := { p.machine with threads := left } }

/-- Lets the program of a thread end. -/
def finish (p : Play) (k i : Nat) (e : Ending) (outer : List Frame) : Play :=
  let (sequel, stage) := e ⟨p.machine.cache, p.props⟩
  let p := { p with
    machine := { p.machine with cache := stage.cache }
    props := stage.props }.retire i
  match sequel with
  | .answer a => p.reply k a outer
  | .load n groups => p.begin k (settling n groups) outer
  | .await package loads => p.setFrames k (.await package loads :: outer)

/-- Takes out the hooks that wait for a callback. -/
def takeHooks (p : Play) (h : Handle) (cue : Cue) : List Hook × Play :=
  let (due, others) := p.props.hooks.partition fun hook => hook.awaits h cue
  (due, { p with props := { p.props with hooks := others } })

/-- What is told of the callback that a thread is within. -/
def telling? (p : Play) (i : Nat) : Option (Handle × Cue × String) := do
  let thread ← p.machine.threads[i]?
  let callback ← thread.callback?
  let cast ← p.props.casts.get? callback.handle.type
  let (cue, text) ← tell cast callback
  pure (callback.handle, cue, text)

/-- Notes the callback that a thread has come to, and sets its actor to the
hooks that wait for it. -/
def meet (p : Play) (k i : Nat) : Play :=
  match p.telling? i with
  | none => p
  | some (h, cue, text) =>
    let (due, p) := (p.note (.told cue h text)).takeHooks h cue
    p.setFrames k ((due.map fun hook => .steps (some (cue, h)) [] hook.steps) ++
      p.frames k)

/-- What came of loads, if all are over. -/
def outcomes? (p : Play) (loads : List Nat) :
    Option (List (Except Failure Unit)) :=
  loads.mapM fun n => p.props.loads[n]?.join

/-- The next move of an actor; none if it is through or blocked. -/
def move? (p : Play) (k : Nat) : Option Play :=
  match p.frames k with
  | [] => none
  | .steps none _ [] :: _ => none
  | .steps (some (cue, h)) answers [] :: outer =>
    some ((p.note (.hook cue h answers.reverse)).setFrames k outer)
  | .steps hook answers (.aside (step :: more) :: todo) :: outer =>
    some ((p.setFrames k
      (.steps hook answers (.aside more :: todo) :: outer)).enter step)
  | .steps hook answers (.aside [] :: todo) :: outer =>
    some (p.reply k .done (.steps hook answers (.aside [] :: todo) :: outer))
  | .steps hook answers (step :: todo) :: outer =>
    some (p.begin k step.program (.steps hook answers (step :: todo) :: outer))
  | .program i :: outer =>
    match p.machine.threads[i]? with
    | some (.finished e) => some (p.finish k i e outer)
    | _ => (p.machine.step i).map fun m => { p with machine := m }.meet k i
  | .await package loads :: outer =>
    (p.outcomes? loads).map fun os =>
      p.reply k (.ofUnit (Package.report package os)) outer

/-! ### Turns -/

/-- Whether an actor is through. -/
def isThrough (p : Play) (k : Nat) : Bool :=
  (p.actors[k]?.bind Actor.answer?).isSome

/-- Ends a turn.  The actor that has been blocked longest and can move comes
next; if there is none, it is again the turn of the one that waits. -/
def yield (p : Play) : Play :=
  match p.blocked.find? fun k => (p.move? k).isSome with
  | some k => { p with turns := k :: p.turns, blocked := p.blocked.erase k }
  | none => p

/-- The next move of the play: of the actor whose turn it is, or to another. -/
def next? (p : Play) : Option Play :=
  match p.turns with
  | [] => none
  | k :: turns =>
    match p.move? k with
    | some p => some p
    | none =>
      let blocked := if p.isThrough k then p.blocked else p.blocked ++ [k]
      some { p with turns := turns, blocked := blocked }.yield

/-- Moves on until no actor can. -/
def run : (fuel : Nat) → Play → Play
  | 0, p => p
  | fuel + 1, p =>
    match p.next? with
    | some p => run fuel p
    | none => p

/-- How many moves a step may take: more than any machine makes. -/
def patience : Nat := 1000000000000000000

/-- The answer of a step that never comes through. -/
def stuck : Answer := .failed (.told "stuck")

/-- What the actors answered, in the order of their start. -/
def answers (p : Play) : List Answer :=
  p.actors.map fun a => a.answer?.getD stuck

end Play

/-- What a step showed. -/
structure Scene where
  answer : Answer
  events : List Event := []
  /-- The answers of the steps aside, in the order of their start. -/
  asides : List Answer := []

/-- The scene of a step that never comes through. -/
def Scene.stuck : Scene := ⟨Play.stuck, [], []⟩

/-- Plays one step.  Gives the stage after it, unless somebody is blocked there
for good. -/
def playStep (step : Step) (s : Stage) : Scene × Option Stage :=
  let p := (Play.ofStep step s).run Play.patience
  let scene := ⟨p.answers.headD Play.stuck, p.events.reverse, p.answers.tail⟩
  (scene, if p.blocked.isEmpty then some ⟨p.machine.cache, p.props⟩ else none)

/-- Plays steps in order. -/
def playSteps : List Step → Stage → List Scene
  | [], _ => []
  | step :: rest, s =>
    match playStep step s with
    | (scene, some s') => scene :: playSteps rest s'
    | (scene, none) => scene :: rest.map fun _ => Scene.stuck

/-- The stage before the first step. -/
def newStage (source : Source) (parts : List (String × Part)) : Stage where
  cache := { source := source }
  props :=
    { components := Part.register parts, systems := Part.installAll parts }

end ResourceHost.Rehearsal
