import Dataflow.Graph.Firing

/-!
# Using a frozen graph by hand

A frozen graph can be driven without a scheduler: inputs are staged at sources,
nodes are fired one at a time, and entries can be published and read at any
node. Firing a node takes its inputs one inlet after another, and what was taken
is gone even if a later inlet turns out to be empty. Publication goes through the
outgoing pools in order and has to wait where a pool is full; `Graph.deliver`
stops there and says what is left.
-/

namespace Dataflow

/-- Entries that are still to be published, each with its channel. -/
abbrev Deliveries (α : Type) : Type :=
  List (Channel × Entry α)

namespace Graph

variable {α : Type}

/-- The entry of a run in a channel, and the pool there without it. -/
def entryOf? (g : Graph α) (c : Channel) (run : ObjectId) :
    Option (Entry α × Pool (Entry α)) :=
  match (g.pool? c).bind (·.takeTagged run) with
  | some (x, p) => some (x.payload, p)
  | none => none

/-- Takes the entries of a run out of the channels in order, up to the first that
has none, and returns what has been taken or who failed to provide. -/
def takeInputs (g : Graph α) (run : ObjectId) (taken : List (Entry α)) :
    List Channel → Except NodeId (List (Entry α)) × Graph α
  | [] => (.ok taken, g)
  | c :: cs =>
    match g.entryOf? c run with
    | some (e, p) => (g.setPool c p).takeInputs run (taken ++ c.inputs e) cs
    | none => (.error c.producer, g)

/-- Publishes entries until one has to wait; returns those that are left. An entry
that a closed pool refuses is dropped. -/
def deliver (g : Graph α) (run : ObjectId) : Deliveries α → Graph α × Deliveries α
  | [] => (g, [])
  | (c, e) :: rest =>
    match g.pool? c with
    | none => g.deliver run rest
    | some p =>
      match p.push ⟨run, e⟩ with
      | none => (g, (c, e) :: rest)
      | some (.ok p) => (g.setPool c p).deliver run rest
      | some (.error _) => g.deliver run rest

/-- Counts a publication that begins to wait at the first of the deliveries. -/
def countStarved (g : Graph α) : Deliveries α → Graph α
  | [] => g
  | (c, _) :: _ =>
    match g.pool? c with
    | some p => g.setPool c p.countStarved
    | none => g

/-- Whether some outgoing pool of the node would make a producer wait. -/
def publicationWaits (g : Graph α) (id : NodeId) : Bool :=
  (g.outlets id).any fun c => (g.pool? c).any (·.pushWaits)

/-- An execution up to its publication: the inputs that its callback was called with
if it was called, and what is left behind or why it did not happen. -/
structure Launch (α : Type) where
  called : Option (List α)
  outcome : Except Error (Firing α)

namespace Launch

variable {α : Type}

/-- An execution that did not happen. -/
def refused (e : Error) : Launch α :=
  ⟨none, .error e⟩

/-- What the caller of the execution gets: its error, or the output of a sink. -/
def answer (l : Launch α) : Except Error (Option α) :=
  match l.outcome with
  | .error e => .error e
  | .ok f =>
    match f.error with
    | some e => .error (.execution e)
    | none => .ok f.output

/-- What the execution has to publish through the outlets of the node. -/
def deliveries (l : Launch α) (outlets : List Channel) : Deliveries α :=
  match l.outcome with
  | .error _ => []
  | .ok f => outlets.zip f.outgoing

end Launch

/-- The inputs that a node's callback is called with, if it has one and is called. -/
def calledWith (n : Node α) (inputs : List (Entry α)) (poisoned : Bool) : Option (List α) :=
  if n.hasWork then gather inputs poisoned else none

/-- Executes a node for a run, without publishing. -/
def launch [Payload α] (g : Graph α) (id : NodeId) (run : ObjectId) : Launch α × Graph α :=
  if !g.isFrozen then (.refused (.graph .notFrozen), g)
  else
    match g.nodes[id]? with
    | none => (.refused (.graph (.unknownNode id)), g)
    | some n =>
      match g.takeInputs run [] (g.inlets id) with
      | (.error missing, g) => (.refused (.execution (.noInput missing)), g)
      | (.ok inputs, g) =>
        let called := calledWith n inputs false
        let g := if called.isSome then g.countCall id else g
        (⟨called, .ok (n.fire id inputs false)⟩, g.countRun id)

/-- Executes a node for a run and publishes as far as no pool makes it wait. -/
def fire [Payload α] (g : Graph α) (id : NodeId) (run : ObjectId) :
    Except Error (Option α) × Graph α :=
  let (l, g) := g.launch id run
  (l.answer, (g.deliver run (l.deliveries (g.outlets id))).1)

/-! ### Staging, publishing and reading -/

/-- Puts a value into the staging pool of a node, source or not; none if the pool
makes the caller wait or there is no such node. -/
def stage (g : Graph α) (id : NodeId) (x : Tagged α) :
    Option (Except (Rejected (Entry α)) (Graph α)) :=
  match g.pool? (.staging id) with
  | none => none
  | some p =>
    match p.push (x.map some) with
    | none => none
    | some (.ok p) => some (.ok (g.setPool (.staging id) p))
    | some (.error r) => some (.error r)

/-- Stages a payload for a run at a source of a frozen graph; none if the caller
has to wait. -/
def pushInput (g : Graph α) (id : NodeId) (x : Tagged α) : Option (Except Error (Graph α)) :=
  if !g.isFrozen then some (.error (.graph .notFrozen))
  else
    match g.nodes[id]? with
    | none => some (.error (.graph (.unknownNode id)))
    | some n =>
      if !n.isSource then some (.error (.scheduling (.unexpectedInput id)))
      else
        match g.stage id x with
        | none => none
        | some (.ok g) => some (.ok g)
        | some (.error _) => some (.error (.scheduling .shutDown))

/-- Pushes entries in order up to the first one that is refused. -/
def pushAll (g : Graph α) (run : ObjectId) : Deliveries α → Except Error Unit × Graph α
  | [] => (.ok (), g)
  | (c, e) :: rest =>
    match (g.pool? c).bind (·.push ⟨run, e⟩) with
    | some (.ok p) => (g.setPool c p).pushAll run rest
    | _ => (.error (.scheduling .shutDown), g)

/-- Whether publishing at a node would have to wait: a pool that makes a producer
wait comes before the first closed one. -/
def outputWaits (g : Graph α) (id : NodeId) : Bool :=
  match ((g.outlets id).filterMap g.pool?).find? fun p => p.pushWaits || p.isClosed with
  | some p => p.pushWaits
  | none => false

/-- Publishes a value as if the node had computed it. Nothing is published if a
copy fails; pools before the first closed one keep their entries. -/
def pushOutput [Payload α] (g : Graph α) (id : NodeId) (n : Node α) (x : Tagged α) :
    Except Error Unit × Graph α :=
  if (g.stations[id]?.map (·.outgoing.size)).getD 0 ≠ n.successors.length then
    (.error (.graph .notFrozen), g)
  else
    match n.fanOut id (some x.payload) with
    | .error e => (.error (.execution e), g)
    | .ok entries => g.pushAll x.objectId ((g.outlets id).zip entries)

end Graph

/-- Takes the oldest entry that carries data, and with it the marks before it. -/
def Pool.popData {α : Type} (p : Pool (Entry α)) : Option (Tagged α) × Pool (Entry α) :=
  go p.numFull p
where
  /-- Takes entries until one carries data, at most as many as given. -/
  go : Nat → Pool (Entry α) → Option (Tagged α) × Pool (Entry α)
    | 0, p => (none, p)
    | fuel + 1, p =>
      match p.tryPop with
      | none => (none, p)
      | some (⟨run, some x⟩, p) => (some ⟨run, x⟩, p)
      | some (⟨_, none⟩, p) => go fuel p

namespace Graph

variable {α : Type}

/-- The channel to the successor at a position. -/
def branch? (g : Graph α) (id : NodeId) (branch : Nat) : Option Channel :=
  match (g.successors id)[branch]? with
  | some target => if (g.pool? (.edge id target)).isSome then some (.edge id target) else none
  | none => none

/-- Reads the oldest value published towards the successor at a position. -/
def popOutput (g : Graph α) (id : NodeId) (branch : Nat) : Option (Tagged α) × Graph α :=
  match g.branch? id branch with
  | none => (none, g)
  | some c =>
    match g.pool? c with
    | none => (none, g)
    | some p =>
      let (x, p) := p.popData
      (x, g.setPool c p)

end Graph

end Dataflow
