import KnownObjects.Channel.Stream
import KnownObjects.CommandLine.Arguments
import KnownObjects.CommandLine.Sample
import KnownObjects.CommandLine.Texts
import KnownObjects.Compilation
import KnownObjects.Dump.Document
import KnownObjects.Server

/-!
# What the program does

The program runs one compilation that looks up the sample objects, prints the index of each and then dumps the table. In split mode the table is that of a server, which reaches its client over a byte stream; the client's table is dumped as well.
-/

namespace KnownObjects.CommandLine

/-- What a run of the program leaves: its exit code, its output, and what it says besides. -/
structure Report where
  exitCode : UInt32
  output : String
  complaint : String
  log : List LogRecord
deriving DecidableEq

namespace Report

def success (output : String) (log : List LogRecord) : Report := ⟨0, output, "", log⟩

def failure (exitCode : UInt32) (complaint : String) (log : List LogRecord) : Report :=
  ⟨exitCode, "", complaint, log⟩

end Report

/-- Looks up one object after the other, with something done after each lookup. -/
def resolveAll {σ : Type} (lookup : Location → Bool → Action Fatal σ Index) (afterEach : Action Fatal σ Unit) :
    List SampleLookup → Action Fatal σ (List (String × Index))
  | [] => return []
  | l :: rest => do
    let index ← lookup l.location l.constant
    .note .info (l.name ++ " -> obj" ++ index.text)
    afterEach
    return (l.name, index) :: (← resolveAll lookup afterEach rest)

/-- A name in a column of twelve characters, and the index. -/
def resolvedText (entry : String × Index) : String :=
  Text.left 12 entry.1 ++ " obj" ++ entry.2.text ++ "\n"

def collectAt : Action Fatal Site Unit := do
  let site ← get
  let heap := site.heap.collect.2
  set { site with heap }
  .note .debug heap.collectionText

def onlyIf {σ : Type} (asked : Bool) (a : Action Fatal σ Unit) : Action Fatal σ Unit :=
  if asked then a else return ()

def dumpOptions (o : Options) : DumpOptions := ⟨o.graph, o.mutableFields⟩

/-- The report of a compilation that ended in some way, where the dumps of its state are known. -/
def reportOf {σ : Type} (dump : σ → Dump.Printed)
    (outcome : Outcome Empty σ (Except Compilation.Aborted (List (String × Index)))) : Report :=
  match outcome.result with
  | .ok (.ok resolved) =>
    let printed := dump outcome.state
    .success (String.join (resolved.map resolvedText) ++ printed.text) (outcome.log ++ printed.log)
  | .ok (.error aborted) => .failure 1 aborted.message outcome.log

def runSameProcess (o : Options) (sample : Sample) (heap : Heap) : Report :=
  reportOf (fun site => (Dump.read site.table (dumpOptions o) (some site.heap)).print none) <|
    (Compilation.run 1 .sameProcess (fun site => site.table.endIndex) Site.dropTable <|
      resolveAll Site.indexAt (onlyIf o.collect collectAt) sample.lookups).run
      { heap, table := .empty heap.id }

/-- The server of split mode, with its client at the other end of the stream. -/
abbrev SplitServer := Server (StreamChannel ClientPeer)

def collectAtClient : Action Fatal SplitServer Unit :=
  .focus (fun s => s.channel.peer.client)
    (fun client s => { s with channel := { s.channel with peer := { s.channel.peer with client } } })
    (.whenPresent () collectAt)

/-- The dump of the server's table, followed by that of the client's. -/
def dumpBoth (o : Options) (s : SplitServer) : Dump.Printed :=
  Dump.printAll <| (Dump.Document.server s.endIndex).events ++
    match s.channel.peer.client with
    | some site => (Dump.read site.table (dumpOptions o) (some site.heap)).events
    | none => []

def runSplit (o : Options) (sample : Sample) (heap : Heap) : Report :=
  let client : Site := { heap, table := .empty heap.id }
  reportOf (dumpBoth o) <|
    (Compilation.run 1 .server Server.endIndex (return ()) <|
      resolveAll Server.indexAt (onlyIf o.collect collectAtClient) sample.lookups).run
      (.ofChannel (.ofBytes [] ⟨some client, none⟩))

def runOptions (o : Options) : Report :=
  match Heap.create 0 .default with
  | .error e => .failure 1 ("Error creating heap: " ++ e.message) []
  | .ok heap =>
    match Sample.build heap with
    | .error e => .failure 1 ("Error building sample objects: " ++ e.message) []
    | .ok (sample, heap) =>
      match o.mode with
      | some .split => runSplit o sample heap
      | _ => runSameProcess o sample heap

/-- Whether a record is shown: up to grade `INFO` always, and one grade more for each request for more logging, twice. -/
def isShown (verbosity : Nat) (r : LogRecord) : Bool := r.level.rank ≤ 3 + min verbosity 2

/-- Runs the program with some arguments. The log holds what these arguments ask to see of it. -/
def run (arguments : List String) : Report :=
  match parse .default arguments with
  | .error e => .failure 2 ("error: " ++ e.message) []
  | .ok .shortHelp => .success shortHelpText []
  | .ok .longHelp => .success longHelpText []
  | .ok .version => .success versionText []
  | .ok (.run o) =>
    let report := runOptions o
    { report with log := report.log.filter (isShown o.verbosity) }

end KnownObjects.CommandLine
