import Dots.Dispatcher.Model

/-!
# Transceivers that are moved

A `Transceiver` owns a dispatcher and the handlers of new types. A `Subscription` refers to the object
on which it was made and, weakly, to `m_this`, a shared pointer to the object that a move hands on.

* `Transceiver`: the members of the source's `Transceiver` that subscriptions depend on.
* `Program`: the objects of a program, what `m_this` points to, and the subscriptions that are held.
* `Program.loop`: the loops over handlers, which may subscribe and drop subscriptions while they run.
* `Program.step`: construction, moves, destruction, subscriptions and dispatches.
-/

set_option autoImplicit false
set_option linter.unusedSectionVars false

namespace Dots

variable {S : Schema} {V : Type} [Ord V] [Std.TransOrd V] [Std.LawfulEqOrd V]

/-- What a handler is subscribed to. -/
inductive Target
  | handler (k : HandlerKind) (n : String)
  | newType
  deriving DecidableEq

/-- Whether the handler is one of the dispatcher. -/
def Target.ofDispatcher : Target → Bool
  | .handler _ _ => true
  | .newType => false

variable (S V) in
/-- `Transceiver`. The shared pointer `m_this` is the number of its control block. -/
structure Transceiver where
  nextId : HandlerId := 0
  currentlyDispatchingId : Option HandlerId := none
  removeIds : List HandlerId := []
  this_ : Option ℕ
  dispatcher : Dispatcher S V := {}
  newTypeHandlers : List HandlerId := []

namespace Transceiver

variable (c : Transceiver S V)

def handlers : Target → List HandlerId
  | .handler k n => c.dispatcher.handlers k n
  | .newType => c.newTypeHandlers

/-- The id that the next handler gets. -/
def counter : Target → HandlerId
  | .handler _ _ => c.dispatcher.nextId
  | .newType => c.nextId

def current : Target → Option HandlerId
  | .handler _ _ => c.dispatcher.currentlyDispatchingId
  | .newType => c.currentlyDispatchingId

def pending : Target → List HandlerId
  | .handler _ _ => c.dispatcher.removeIds
  | .newType => c.removeIds

def setCurrent (id : Option HandlerId) : Target → Transceiver S V
  | .handler _ _ => { c with dispatcher := { c.dispatcher with currentlyDispatchingId := id } }
  | .newType => { c with currentlyDispatchingId := id }

/-- The handler that `subscribe` adds. -/
def add : Target → Transceiver S V
  | .handler k n => { c with dispatcher := c.dispatcher.addHandler k n }
  | .newType => { c with nextId := c.nextId + 1, newTypeHandlers := c.nextId :: c.newTypeHandlers }

/-- The lambdas that `subscribe` passes to `makeSubscription`. -/
def unsubscribe (id : HandlerId) : Target → Except String (Transceiver S V)
  | .handler k n => do
    let D ← c.dispatcher.removeHandler k n id
    return { c with dispatcher := D }
  | .newType =>
    if c.currentlyDispatchingId = some id then .ok { c with removeIds := c.removeIds ++ [id] }
    else .ok { c with newTypeHandlers := c.newTypeHandlers.erase id }

/-- The end of `dispatchToHandlers` and of `handleNewType`. -/
def flush : Target → Transceiver S V
  | .handler k n => { c with dispatcher := c.dispatcher.flush k n }
  | .newType =>
    { c with newTypeHandlers := c.removeIds.foldl List.erase c.newTypeHandlers, removeIds := [] }

/-- What a move leaves: the pointer is null and the containers are empty. -/
def movedFrom : Transceiver S V where
  nextId := c.nextId
  currentlyDispatchingId := c.currentlyDispatchingId
  this_ := none
  dispatcher :=
    { nextId := c.dispatcher.nextId
      currentlyDispatchingId := c.dispatcher.currentlyDispatchingId }

end Transceiver

/-! ## Programs -/

/-- What the lambda of a `Subscription` has captured: the object on which it was made, and a weak
pointer to its `m_this`. -/
structure Subscription (ι : Type) where
  transceiver : ι
  this_ : ℕ
  target : Target
  id : HandlerId
  deriving DecidableEq

/-- The transceiver and the handler that are meant, wherever the transceiver is. -/
def Subscription.key {ι : Type} (s : Subscription ι) : ℕ × Target × HandlerId :=
  (s.this_, s.target, s.id)

/-- A call of the lambda that fails. -/
inductive DropError
  | logicError (what : String)
  /-- The object that the lambda refers to has been destroyed. -/
  | dangling
  deriving DecidableEq

/-- A handler that a loop may come to. -/
structure HandlerTurn where
  key : ℕ × Target × HandlerId
  invoked : Bool
  /-- Whether its subscription is held. -/
  held : Bool
  deriving DecidableEq

variable (S V) in
/-- The transceivers of a program by their addresses, and the subscriptions that are held. -/
structure Program (ι : Type) where
  objects : ι → Option (Transceiver S V) := fun _ => none
  /-- The object that a shared pointer `m_this` points to, as long as there is one. -/
  pointers : ℕ → Option ι := fun _ => none
  /-- The shared pointers that have been made. -/
  blocks : ℕ := 0
  subscriptions : List (Subscription ι) := []
  turns : List HandlerTurn := []
  failures : List DropError := []

namespace Program

variable {ι : Type} [DecidableEq ι] (w : Program S V ι)

/-- The subscription of a handler is held. -/
def Held (key : ℕ × Target × HandlerId) : Prop := key ∈ w.subscriptions.map Subscription.key

instance (key : ℕ × Target × HandlerId) : Decidable (w.Held key) :=
  inferInstanceAs (Decidable (_ ∈ _))

def setObject (i : ι) (c : Option (Transceiver S V)) : Program S V ι :=
  { w with objects := Function.update w.objects i c }

/-- `*m_this = ...`, or the end of the last shared pointer. -/
def setPointer (b : ℕ) (i : Option ι) : Program S V ι :=
  { w with pointers := Function.update w.pointers b i }

/-- `subscribe` on a transceiver that has not been moved away. -/
def subscribe (i : ι) (t : Target) : Program S V ι :=
  match w.objects i with
  | some c =>
    match c.this_ with
    | some b =>
      { w.setObject i (some (c.add t)) with subscriptions := ⟨i, b, t, c.counter t⟩ :: w.subscriptions }
    | none => w
  | none => w

/-- `Subscription::unsubscribe`. If the lambda throws, the subscription stays. -/
def drop (s : Subscription ι) : Except DropError (Program S V ι) :=
  if s ∈ w.subscriptions then
    match w.pointers s.this_ with
    | none => .ok { w with subscriptions := w.subscriptions.erase s }
    | some _ =>
      match w.objects s.transceiver with
      | none => .error .dangling
      | some c =>
        match c.unsubscribe s.id s.target with
        | .error what => .error (.logicError what)
        | .ok c =>
          .ok { w.setObject s.transceiver (some c) with subscriptions := w.subscriptions.erase s }
  else .ok w

/-- What a handler does while it runs. -/
inductive Action (ι : Type)
  | subscribe (i : ι) (t : Target)
  | drop (s : Subscription ι)

def act : Action ι → Except DropError (Program S V ι)
  | .subscribe i t => .ok (w.subscribe i t)
  | .drop s => w.drop s

/-- The actions of a handler, up to the first that fails. -/
def perform (w : Program S V ι) : List (Action ι) → Program S V ι
  | [] => w
  | a :: as =>
    match w.act a with
    | .ok w => w.perform as
    | .error e => { w with failures := e :: w.failures }

/-- A change of the transceiver at an address. -/
def modify (i : ι) (f : Transceiver S V → Transceiver S V) : Program S V ι :=
  w.setObject i ((w.objects i).map f)

/-- The turn of a loop at an id, which is invoked if it is in the table. -/
def turn (i : ι) (b : ℕ) (t : Target) (actions : HandlerId → List (Action ι)) (id : HandlerId) :
    Program S V ι :=
  let invoked := decide (∃ c ∈ w.objects i, id ∈ c.handlers t)
  let w := { w with turns := ⟨(b, t, id), invoked, decide (w.Held (b, t, id))⟩ :: w.turns }
  if invoked then
    ((w.modify i (Transceiver.setCurrent · (some id) t)).perform (actions id)).modify i
      (Transceiver.setCurrent · none t)
  else w

/-- The loops of `dispatchToHandlers` and `handleNewType`, which go from the highest id to the
lowest. -/
def loop (i : ι) (b : ℕ) (t : Target) (actions : HandlerId → List (Action ι)) :
    ℕ → Program S V ι → Program S V ι
  | 0, w => w.modify i (Transceiver.flush · t)
  | id + 1, w => loop i b t actions id (w.turn i b t actions id)

/-- The end of the shared pointer of a transceiver that is destroyed or assigned to. -/
def release (c : Transceiver S V) : Program S V ι :=
  match c.this_ with
  | some b => w.setPointer b none
  | none => w

inductive Label (ι : Type)
  | construct (i : ι)
  /-- `Transceiver(Transceiver&&)` at the address `j`. -/
  | moveConstruct (i j : ι)
  | moveAssign (i j : ι)
  | destroy (i : ι)
  | subscribe (i : ι) (t : Target)
  | drop (s : Subscription ι)
  /-- A dispatch to the handlers of a table, or the notification of a new type. -/
  | dispatch (i : ι) (t : Target) (actions : HandlerId → List (Action ι))

/-- The transceiver at `i` moves to `j`. -/
def move (i j : ι) (c : Transceiver S V) (b : ℕ) : Program S V ι :=
  ((w.setObject j (some c)).setObject i (some c.movedFrom)).setPointer b (some j)

def step : Label ι → Option (Program S V ι)
  | .construct i =>
    match w.objects i with
    | none =>
      some { (w.setObject i (some { this_ := some w.blocks })).setPointer w.blocks (some i) with
        blocks := w.blocks + 1 }
    | some _ => none
  | .moveConstruct i j =>
    match w.objects i, w.objects j with
    | some c, none => c.this_.map fun b => w.move i j c b
    | _, _ => none
  | .moveAssign i j =>
    match w.objects i, w.objects j with
    | some c, some c' => if i = j then none else c.this_.map fun b => (w.release c').move i j c b
    | _, _ => none
  | .destroy i => (w.objects i).map fun c => (w.release c).setObject i none
  | .subscribe i t => some (w.subscribe i t)
  | .drop s =>
    match w.drop s with
    | .ok w => some w
    | .error e => some { w with failures := e :: w.failures }
  | .dispatch i t actions =>
    match w.objects i with
    | some c => c.this_.map fun b => loop i b t actions (c.counter t) w
    | none => none

end Program

end Dots
