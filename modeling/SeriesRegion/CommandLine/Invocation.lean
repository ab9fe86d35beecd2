import SeriesRegion.CommandLine.Arguments
import SeriesRegion.Generation
import SeriesRegion.Replay.Batches

/-!
# Invocations

What the program can be asked to do, and how that is written in its arguments.
-/

namespace SeriesRegion.CommandLine

/-- Which region to work on: a configuration file, and settings that go before those in the file. -/
structure RegionOptions where
  config : Option String
  dataDir : Option String
  storageGroup : Option String
  regionId : Option UInt32
  deriving DecidableEq, Repr

inductive Invocation where
  | version
  | help
  /-- Replays a plan, with settings of the sequencer that go before those configured. -/
  | replay (region : RegionOptions) (plan : ReplayPlan) (capacity window : Option UInt64)
  | takeSnapshot (region : RegionOptions) (target : String)
  | loadSnapshot (region : RegionOptions) (source : String)
  | inspectSnapshot (dir : String) (asJson : Bool)
  /-- Prints the log, or what is bound to a log position from `first` on. -/
  | showLog (region : RegionOptions) (first : Option UInt64)
  deriving Repr

/-! ### Values -/

def word? (s : String) : Option UInt64 := parseWord? s.toList

/-- A region id; zero may have a minus sign. -/
def regionId? (s : String) : Option UInt32 :=
  let n :=
    match s.toList with
    | '-' :: rest => (decimalNumber? rest).filter (· = 0)
    | '+' :: rest => decimalNumber? rest
    | rest => decimalNumber? rest
  (n.filter (· < UInt32.size)).map UInt32.ofNat

def order? : String → Option DeliveryOrder
  | "in-order" => some .inOrder
  | "reverse" => some .reverse
  | "interleaved" => some .interleaved
  | _ => none

/-- The levels of messages, from the fewest to the most. -/
def levels : List String := ["error", "warn", "info", "debug", "trace"]

/-- A level, by its name in letters of any case or by its number. -/
def isLevel (s : String) : Bool :=
  levels.contains (s.map Char.toLower) ||
    match word? s with
    | some n => 1 ≤ n && n ≤ 5
    | none => false

def isPath (s : String) : Bool := s ≠ ""

/-! ### Grammars -/

def valued (name : String) (accepts : String → Bool) (letter : Option Char) : Switch :=
  ⟨name, letter, some accepts, false⟩

def plain (name : String) : Switch := ⟨name, none, none, false⟩

def helpSwitch : Switch := ⟨"help", some 'h', none, true⟩

def versionSwitch : Switch := ⟨"version", some 'V', none, true⟩

def commonSwitches : List Switch := [valued "log-level" isLevel none, helpSwitch]

def regionSwitches : List Switch := [
  valued "config" isPath (some 'c'),
  valued "data-dir" isPath none,
  valued "storage-group" (fun _ => true) none,
  valued "region-id" (fun s => (regionId? s).isSome) none]

def wordSwitch (name : String) : Switch := valued name (fun s => (word? s).isSome) none

def replaySwitches : List Switch := [
  wordSwitch "batches", wordSwitch "span", wordSwitch "first-index", wordSwitch "devices",
  valued "order" (fun s => (order? s).isSome) none,
  plain "unseeded", wordSwitch "stagger-ms", wordSwitch "capacity", wordSwitch "wait-window-ms"]

def mainGrammar : Grammar := ⟨versionSwitch :: commonSwitches, ["replay", "snapshot", "wal", "help"], []⟩

def replayGrammar : Grammar := ⟨commonSwitches ++ regionSwitches ++ replaySwitches, [], []⟩

def snapshotGrammar : Grammar := ⟨commonSwitches, ["take", "load", "inspect", "help"], []⟩

def takeGrammar : Grammar := ⟨commonSwitches ++ regionSwitches ++ [valued "out" isPath (some 'o')], [], []⟩

def loadGrammar : Grammar := ⟨commonSwitches ++ regionSwitches ++ [valued "from" isPath none], [], []⟩

def inspectGrammar : Grammar := ⟨commonSwitches ++ [plain "json"], [], [isPath]⟩

def logGrammar : Grammar := ⟨commonSwitches ++ regionSwitches ++ [wordSwitch "from"], [], []⟩

/-! ### Reading -/

namespace Arguments

def word? (a : Arguments) (name : String) : Option UInt64 := (a.value? name).bind CommandLine.word?

def region (a : Arguments) : RegionOptions :=
  ⟨a.value? "config", a.value? "data-dir", a.value? "storage-group", (a.value? "region-id").bind regionId?⟩

def required (a : Arguments) (name : String) : Except Stop String :=
  match a.value? name with
  | some v => .ok v
  | none => .error .usage

def plan (a : Arguments) : ReplayPlan where
  batches := ((a.word? "batches").getD 10).toNat
  span := (a.word? "span").getD 4
  first := (a.word? "first-index").getD 0
  devices := ((a.word? "devices").getD 3).toNat
  order := ((a.value? "order").bind order?).getD .reverse
  seeded := !a.has "unseeded"

end Arguments

namespace Invocation

/-- Asks for help on the command that names lead to, if there is one. -/
def askHelp (commands : List String) : List String → Except Stop Invocation
  | [] => .error (.asked "help")
  | [name] => .error (if name ∈ commands then .asked "help" else .usage)
  | [outer, inner] =>
    .error (if outer = "snapshot" ∧ outer ∈ commands ∧ inner ∈ snapshotGrammar.commands then .asked "help" else .usage)
  | _ => .error .usage

/-- Reads what follows `snapshot`. -/
def readSnapshot (args : List String) : Except Stop Invocation := do
  let a ← Arguments.read snapshotGrammar args
  match a.command with
  | some ("take", rest) =>
    let a ← Arguments.read takeGrammar rest
    return .takeSnapshot a.region (← a.required "out")
  | some ("load", rest) =>
    let a ← Arguments.read loadGrammar rest
    return .loadSnapshot a.region (← a.required "from")
  | some ("inspect", rest) =>
    let a ← Arguments.read inspectGrammar rest
    match a.operands with
    | [dir] => return .inspectSnapshot dir (a.has "json")
    | _ => .error .usage
  | some ("help", rest) => askHelp snapshotGrammar.commands rest
  | _ => .error .usage

/-- Reads an invocation that asks neither for help nor for the version. -/
def readMain (args : List String) : Except Stop Invocation := do
  let a ← Arguments.read mainGrammar args
  match a.command with
  | some ("replay", rest) =>
    let a ← Arguments.read replayGrammar rest
    return .replay a.region a.plan (a.word? "capacity") (a.word? "wait-window-ms")
  | some ("snapshot", rest) => readSnapshot rest
  | some ("wal", rest) =>
    let a ← Arguments.read logGrammar rest
    return .showLog a.region (a.word? "from")
  | some ("help", rest) => askHelp mainGrammar.commands rest
  | _ => .error .usage

/-- The invocation that arguments spell. -/
def ofArguments? (args : List String) : Option Invocation :=
  match readMain args with
  | .ok i => some i
  | .error (.asked "version") => some .version
  | .error (.asked _) => some .help
  | .error .usage => none

end Invocation

end SeriesRegion.CommandLine
