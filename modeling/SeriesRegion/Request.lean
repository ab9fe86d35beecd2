import SeriesRegion.Binary.Plan

/-!
# Requests

A request carries plans, decoded or in bytes, alone or under the log positions they are replicated at.  Resolving it
decodes the plans, binds each to its log position and merges the plans of one position into one command.
-/

namespace SeriesRegion

/-! ### Batches of log positions -/

/-- Why a range of log positions is no batch. -/
inductive BatchFault where
  | inverted (start stop : UInt64)
  | empty (start stop : UInt64)
  deriving DecidableEq, Repr

def BatchFault.message : BatchFault → String
  | .inverted start stop => s!"batch start index {start.toNat} is after end index {stop.toNat}"
  | .empty start stop => s!"batch [{start.toNat}, {stop.toNat}] has no commands"

/-- The commands of the log positions from `start` to `stop`, both included. -/
structure LogBatch (γ : Type) where
  start : UInt64
  stop : UInt64
  commands : List γ
  start_le_stop : start ≤ stop
  commands_ne_nil : commands ≠ []

/-- The batch of a range and its commands; a range that runs backwards is reported before a lack of commands. -/
def LogBatch.of {γ : Type} (start stop : UInt64) (commands : List γ) : Except BatchFault (LogBatch γ) :=
  if h : start ≤ stop then
    if h' : commands = [] then .error (.empty start stop) else .ok ⟨start, stop, commands, h, h'⟩
  else .error (.inverted start stop)

/-! ### Faults -/

/-- What a group of commands is made of. -/
inductive GroupShape where
  | singleInserts
  | tablets
  | rows
  deriving DecidableEq, Repr

def GroupShape.name : GroupShape → String
  | .singleInserts => "single-target inserts"
  | .tablets => "InsertTablet"
  | .rows => "InsertRow"

inductive RequestFault where
  | emptyGroup
  | shapeMismatch (expected : GroupShape) (found : PlanKind)
  | unreadable (fault : Binary.Fault)
  | notAWrite (found : PlanKind)
  | notAFragment (found : PlanKind)
  | batch (fault : BatchFault)
  deriving DecidableEq, Repr

def RequestFault.message : RequestFault → String
  | .emptyGroup => "cannot merge an empty group of write commands"
  | .shapeMismatch expected found => s!"cannot merge {found.name} into a group of {expected.name}"
  | .unreadable fault => "plan node codec error: " ++ fault.message
  | .notAWrite found => s!"indexed request carries a {found.name} plan, expected an insert"
  | .notAFragment found => s!"read request carries a {found.name} plan, expected a fragment instance"
  | .batch fault => fault.message

/-! ### Merging -/

/-- Collects the inserts of a group, all of which must be of one kind. -/
def collectGroup {π : Type} (shape : GroupShape) (pick : Command → Option (Planned π)) (cs : List Command) :
    Except RequestFault (List (Planned π)) :=
  cs.mapM fun c =>
    match pick c with
    | some i => .ok i
    | none => .error (.shapeMismatch shape c.kind)

def Command.asRow? : Command → Option (Planned Row)
  | .row i => some i
  | _ => none

def Command.asTablet? : Command → Option (Planned Tablet)
  | .tablet i => some i
  | _ => none

/-- The group of inserts that takes its name, position and device from `first`. -/
def Group.under {π : Type} (first : Command) (items : List (Planned π)) : Group π :=
  ⟨first.planId, first.searchIndex, first.device, (List.range items.length).map UInt64.ofNat, items⟩

/-- Merges the commands of one log position into one.  A single command stays as it is; several must all be tablets or
all be rows. -/
def mergeCommands : List Command → Except RequestFault Command
  | [] => .error .emptyGroup
  | [c] => .ok c
  | first :: rest =>
    match first with
    | .tablet _ => (collectGroup .tablets Command.asTablet? (first :: rest)).map fun is => .tablets (.under first is)
    | .row _ =>
      (collectGroup .rows Command.asRow? (first :: rest)).map fun is =>
        if rest.all fun c => c.device = first.device then .rowsOfOneDevice (.under first is)
        else .rows (.under first is)
    | other => .error (.shapeMismatch .singleInserts other.kind)

/-! ### Requests -/

/-- A plan, decoded or in bytes. -/
inductive RawRequest where
  | plan (plan : Plan)
  | bytes (bytes : Bytes)
  deriving DecidableEq, Repr

namespace RawRequest

/-- The request that carries a plan in bytes. -/
def encode (p : Plan) : RawRequest := .bytes (Binary.Format.plan.write p)

def planNode : RawRequest → Except RequestFault Plan
  | plan p => .ok p
  | bytes bs =>
    match Binary.Format.plan.decode bs with
    | .ok p => .ok p
    | .error e => .error (.unreadable e)

def writeCommand (r : RawRequest) : Except RequestFault Command :=
  match r.planNode with
  | .ok (.write c) => .ok c
  | .ok p => .error (.notAWrite p.kind)
  | .error e => .error e

def fragment (r : RawRequest) : Except RequestFault Fragment :=
  match r.planNode with
  | .ok (.fragment f) => .ok f
  | .ok p => .error (.notAFragment p.kind)
  | .error e => .error e

end RawRequest

/-- The requests replicated at one log position. -/
structure IndexedRequest where
  searchIndex : UInt64
  requests : List RawRequest
  deriving DecidableEq, Repr

/-- Decodes the requests, binds each to the log position and merges them. -/
def IndexedRequest.resolve (r : IndexedRequest) : Except RequestFault Command :=
  -- All are decoded before any two are compared, so what cannot be read is reported first.
  match r.requests.mapM fun raw => raw.writeCommand.map (·.bindTo (some r.searchIndex)) with
  | .error e => .error e
  | .ok commands => mergeCommands commands

/-- The requests of a range of log positions. -/
structure BatchRequest where
  start : UInt64
  stop : UInt64
  requests : List IndexedRequest
  deriving DecidableEq, Repr

/-- The batch with one command for each log position. -/
def BatchRequest.resolve (r : BatchRequest) : Except RequestFault (LogBatch Command) :=
  match r.requests.mapM IndexedRequest.resolve with
  | .error e => .error e
  | .ok commands =>
    match LogBatch.of r.start r.stop commands with
    | .error e => .error (.batch e)
    | .ok b => .ok b

/-- A replicated request. -/
inductive Request where
  | indexed (request : IndexedRequest)
  | batch (request : BatchRequest)
  | raw (request : RawRequest)
  deriving DecidableEq, Repr

end SeriesRegion
