import Dots.ContainerPool

/-!
# The dispatcher as a machine

Handlers are the environment: while one runs it may add and remove handlers and dispatch, and at
some point it returns or throws. The machine keeps the stack of the handlers that run and takes
one such call at a time.

* `Dispatcher`: the members of the source's `Dispatcher`; `removeHandler` is its method.
* `Frame`: a running handler, called by a handler loop or by the replay of `addEventHandler`.
* `Frame.settle`: what a removal from a container does to the replays that stand in it.
* `Machine.step`: one call or one return. `Machine.log` records what happened, newest first.
-/

set_option autoImplicit false
set_option linter.unusedSectionVars false

namespace Dots

variable {S : Schema} {V : Type} [Ord V] [Std.TransOrd V] [Std.LawfulEqOrd V]

/-- The two handler pools of a dispatcher. -/
inductive HandlerKind | transmission | event
  deriving DecidableEq

/-- The id of a handler. -/
abbrev HandlerId := ℕ

/-! ## The dispatcher -/

variable (S V) in
/-- `Dispatcher`. A handler pool maps a type to the ids of its handlers, in the order of a
`std::map` under `std::greater`. -/
structure Dispatcher where
  nextId : HandlerId := 0
  currentlyDispatchingId : Option HandlerId := none
  removeIds : List HandlerId := []
  containerPool : ContainerPool S V := .empty
  handlerPool : HandlerKind → String → Option (List HandlerId) := fun _ _ => none

namespace Dispatcher

variable (D : Dispatcher S V)

/-- The handlers of a type. -/
def handlers (k : HandlerKind) (n : String) : List HandlerId := (D.handlerPool k n).getD []

/-- The dispatcher with another handler table for one kind and type. -/
def setHandlers (k : HandlerKind) (n : String) (ids : List HandlerId) : Dispatcher S V :=
  { D with
    handlerPool := Function.update D.handlerPool k (Function.update (D.handlerPool k) n (some ids)) }

/-- `handlers.emplace` of the next id, which comes before all ids given out so far. -/
def addHandler (k : HandlerKind) (n : String) : Dispatcher S V :=
  { D.setHandlers k n (D.nextId :: D.handlers k n) with nextId := D.nextId + 1 }

/-- `Dispatcher::removeHandler`. -/
def removeHandler (k : HandlerKind) (n : String) (id : HandlerId) :
    Except String (Dispatcher S V) :=
  if id ∈ D.handlers k n then
    if D.currentlyDispatchingId = some id then .ok { D with removeIds := D.removeIds ++ [id] }
    else .ok (D.setHandlers k n ((D.handlers k n).erase id))
  else .error ("cannot remove unknown handler for type: " ++ n)

/-- The end of `dispatchToHandlers`: erase the ids to remove from the table of the loop. -/
def flush (k : HandlerKind) (n : String) : Dispatcher S V :=
  { D.setHandlers k n (D.removeIds.foldl List.erase (D.handlers k n)) with removeIds := [] }

end Dispatcher

/-! ## Frames and the log -/

variable (S V) in
/-- What a handler loop hands to its handlers. -/
inductive Dispatchable
  | transmission (t : Transmission S V)
  | event (n : String) (e : Event S V)

def Dispatchable.kind : Dispatchable S V → HandlerKind
  | transmission _ => .transmission
  | event .. => .event

def Dispatchable.typeName : Dispatchable S V → String
  | transmission t => t.instance_.typeName
  | event n _ => n

variable (S V) in
/-- A running handler: where its caller stands. -/
inductive Frame
  /-- The loop of dispatch number `i` over the handlers of `item`, standing on `id`. -/
  | loop (i : ℕ) (item : Dispatchable S V) (id : HandlerId)
  /-- The loop of `addEventHandler` over the container of `n` for the new handler `id`, standing
  on the node of a key, or on a node that has been freed. -/
  | replay (n : String) (id : HandlerId) (node : Option (List (Option V))) (fromCache : ℕ)

namespace Frame

def id : Frame S V → HandlerId
  | loop _ _ id => id
  | replay _ id _ _ => id

def kind : Frame S V → HandlerKind
  | loop _ item _ => item.kind
  | replay .. => .event

def typeName : Frame S V → String
  | loop _ item _ => item.typeName
  | replay n _ _ _ => n

/-- The frame once the containers hold `pool`: the node of a key that is gone has been freed. -/
def settle (pool : ContainerPool S V) : Frame S V → Frame S V
  | replay n id node fromCache =>
    .replay n id (node.filter fun k => ((pool n).lookup k).isSome) fromCache
  | f => f

end Frame

/-- Who invoked a handler. -/
inductive Caller
  | loop (i : ℕ) (k : HandlerKind)
  | replay
  deriving DecidableEq

variable (S V) in
/-- What the machine records. -/
inductive Note
  | added (k : HandlerKind) (n : String) (id : HandlerId)
  /-- `removeHandler` was called for a handler that is registered. -/
  | requested (id : HandlerId)
  /-- `removeHandler` was called for a handler that is not registered for the type, and threw. -/
  | refused (k : HandlerKind) (n : String) (id : HandlerId) (what : String)
  /-- Dispatch number `i` begins, with these handlers registered for its type. -/
  | began (i : ℕ) (t : Transmission S V) (handlers : HandlerKind → List HandlerId)
  /-- The container operation of dispatch number `i`, with what it has for the event handlers. -/
  | stored (i : ℕ) (t : Transmission S V) (now : Timepoint) (r : EventResult S V)
  | invoked (id : HandlerId) (caller : Caller) (item : Dispatchable S V)
  /-- The loop of dispatch number `i` over the handlers of kind `k` is over. -/
  | completed (i : ℕ) (k : HandlerKind)
  /-- The replay for a handler was left by an exception of the handler. -/
  | aborted (id : HandlerId)
  /-- `m_errorHandler` was called for a handler of type `n`. -/
  | error (n : String)
  | threw (what : String)

/-! ## The machine -/

variable (S V) in
structure Machine where
  dispatcher : Dispatcher S V := {}
  /-- The running handlers, innermost first. -/
  stack : List (Frame S V) := []
  /-- The number of dispatches so far. -/
  dispatched : ℕ := 0
  log : List (Note S V) := []

/-- A call made by a running handler or from outside, or the return of the innermost handler. -/
inductive Call (S : Schema) (V : Type)
  | addTransmissionHandler (n : String)
  | addEventHandler (n : String)
  | removeHandler (k : HandlerKind) (n : String) (id : HandlerId)
  | dispatch (t : Transmission S V) (now : Timepoint)
  | finish (threw : Bool) (now : Timepoint)

namespace Machine

variable (m : Machine S V)

def note (x : Note S V) : Machine S V := { m with log := x :: m.log }

/-- The turn of a handler loop at a handler, or its end when there is none left. -/
def loopTo (i : ℕ) (item : Dispatchable S V) : Option HandlerId → Machine S V
  | some id =>
    { m with
      dispatcher := { m.dispatcher with currentlyDispatchingId := some id }
      stack := .loop i item id :: m.stack
      log := .invoked id (.loop i item.kind) item :: m.log }
  | none =>
    { m with
      dispatcher := m.dispatcher.flush item.kind item.typeName
      log := .completed i item.kind :: m.log }

/-- The machine after the container operation of a dispatch; the table of the event handlers of
the type exists from then on, and no replay stands on a node that was removed. -/
def store (i : ℕ) (t : Transmission S V) (now : Timepoint) : Machine S V :=
  let n := t.instance_.typeName
  let r := m.dispatcher.containerPool.dispatchEvent t now
  { m with
    dispatcher :=
      { m.dispatcher.setHandlers .event n (m.dispatcher.handlers .event n) with
        containerPool := r.1 }
    stack := m.stack.map (Frame.settle r.1)
    log := .stored i t now r.2 :: m.log }

/-- The event handlers receive what the container operation has for them. -/
def deliverEvent (i : ℕ) (n : String) : EventResult S V → Machine S V
  | .event e => m.loopTo i (.event n e) (m.dispatcher.handlers .event n).head?
  | .none => m
  | .threw what => m.note (.threw what)

/-- `Dispatcher::dispatchEvent` up to the first handler. -/
def startEvent (i : ℕ) (t : Transmission S V) (now : Timepoint) : Machine S V :=
  (m.store i t now).deliverEvent i t.instance_.typeName
    (m.dispatcher.containerPool.dispatchEvent t now).2

/-- The rest of a handler loop; behind a loop over transmission handlers comes the event. -/
def goOn (i : ℕ) (item : Dispatchable S V) (next : Option HandlerId) (now : Timepoint) :
    Machine S V :=
  match next, item with
  | none, .transmission t => (m.loopTo i item none).startEvent i t now
  | _, _ => m.loopTo i item next

/-- A dispatch begins: its number and the handlers there are go into the log. -/
def beginDispatch (t : Transmission S V) : Machine S V :=
  { m with
    dispatched := m.dispatched + 1
    log := .began m.dispatched t (fun k => m.dispatcher.handlers k t.instance_.typeName) :: m.log }

/-- `Dispatcher::dispatch` up to the first handler. -/
def dispatch (t : Transmission S V) (now : Timepoint) : Machine S V :=
  let m' := m.beginDispatch t
  match m.dispatcher.handlerPool .transmission t.instance_.typeName with
  | none => m'.startEvent m.dispatched t now
  | some ids => m'.goOn m.dispatched (.transmission t) ids.head? now

/-- The header of the replayed events: `fromCache` is a 32-bit counter. -/
def replayHeader (n : String) (x : Struct V (S.descriptor n)) (fromCache : ℕ) : DotsHeader where
  typeName := n
  attributes := x.validProperties
  fromCache := some fromCache
  removeObj := some false
  isFromMyself := some false

/-- The turn of the loop in `addEventHandler` at a clone, or its end. -/
def replayTo (n : String) (id : HandlerId) (fromCache : ℕ) :
    Option (Clone V (S.descriptor n)) → Machine S V
  | some e =>
    let fromCache := (fromCache + (2 ^ 32 - 1)) % 2 ^ 32
    { m with
      stack := .replay n id (some e.1.key) fromCache :: m.stack
      log := .invoked id .replay (.event n
          { header := replayHeader n e.1 fromCache, transmitted := .struct n e.1
            updated := .struct n e.1, cloneInfo := e.2, mt := .create }) :: m.log }
  | none => m

/-- `Dispatcher::addTransmissionHandler`. -/
def addTransmissionHandler (n : String) : Machine S V :=
  { m with
    dispatcher := m.dispatcher.addHandler .transmission n
    log := .added .transmission n m.dispatcher.nextId :: m.log }

/-- `Dispatcher::addEventHandler` up to the first replayed instance. -/
def addEventHandler (n : String) : Machine S V :=
  let id := m.dispatcher.nextId
  let m' : Machine S V :=
    { m with
      dispatcher := m.dispatcher.addHandler .event n
      log := .added .event n id :: m.log }
  let clones := (m.dispatcher.containerPool n).clones
  m'.replayTo n id (clones.length % 2 ^ 32) clones.head?

/-- `Dispatcher::removeHandler`, with what it throws in the log. -/
def removeHandler (k : HandlerKind) (n : String) (id : HandlerId) : Machine S V :=
  match m.dispatcher.removeHandler k n id with
  | .ok D => { m with dispatcher := D, log := .requested id :: m.log }
  | .error what => m.note (.refused k n id what)

/-- The clone behind a key in the order of the container. -/
def nextClone (n : String) (k : List (Option V)) : Option (Clone V (S.descriptor n)) :=
  (m.dispatcher.containerPool n).clones.find? fun e => compare k e.1.key == .lt

/-- The handler behind an id in the order of the table. -/
def nextHandler (k : HandlerKind) (n : String) (id : HandlerId) : Option HandlerId :=
  (m.dispatcher.handlers k n).find? fun j => j < id

/-- A handler has returned to the loop over the handlers of `item`, which catches what it threw. -/
def leaveLoop (item : Dispatchable S V) (rest : List (Frame S V)) (threw : Bool) : Machine S V :=
  { m with
    dispatcher := { m.dispatcher with currentlyDispatchingId := none }
    stack := rest
    log := if threw then .error item.typeName :: m.log else m.log }

/-- The innermost handler returns or throws. A handler loop catches what it throws; the replay
of `addEventHandler` does not, so the exception ends it and reaches its caller. There is no step
where no handler runs, and none where the caller would go on from a node that has been freed,
which is undefined: from that of a handler erased from its table, or of an instance removed from
its container. -/
def finish (threw : Bool) (now : Timepoint) : Option (Machine S V) :=
  match m.stack with
  | [] => none
  | .loop i item id :: rest =>
    let m' := m.leaveLoop item rest threw
    if id ∈ m.dispatcher.handlers item.kind item.typeName then
      some (m'.goOn i item (m'.nextHandler item.kind item.typeName id) now)
    else none
  | .replay n id node fromCache :: rest =>
    let m' : Machine S V := { m with stack := rest }
    if id ∈ m.dispatcher.handlers .event n then
      if threw then some (m'.note (.aborted id))
      else node.map fun k => m'.replayTo n id fromCache (m'.nextClone n k)
    else none

/-- One call or return; none where the source has none or its behaviour is undefined. -/
def step : Call S V → Option (Machine S V)
  | .addTransmissionHandler n => some (m.addTransmissionHandler n)
  | .addEventHandler n => some (m.addEventHandler n)
  | .removeHandler k n id => some (m.removeHandler k n id)
  | .dispatch t now => some (m.dispatch t now)
  | .finish threw now => m.finish threw now

end Machine

end Dots
