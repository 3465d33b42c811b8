import KnownObjects.Session.State

/-!
# Running a session

Each command of a session takes effect on the state and has an answer. An operation that is refused answers with the reason; one that ends in a fatal error, or allocates an object of a class that is not defined, is stopped. At the top level a stop is an answer like any other. Inside a pass a fatal error aborts the compilation, and an undefined class also ends every compilation around it.
-/

namespace KnownObjects.Session

/-- Runs at a table that can read a heap, through the heap of a given number. -/
def atSite (n : Nat) (serves : Bool) (table : Table) (heapId : HeapId) (a : Site.Run Answer) :
    Run Answer := do
  match (← get).heaps[heapId]? with
  | some heap =>
    .mapError .fatal <| a.focus (fun _ => { heap, table }) fun site s =>
      (s.setHeap heapId site.heap).setTable n (some (.direct serves site.table))
  | none => return .noSuchNumber

/-- Runs at a server, with the client at the far end of its channel if it can be reached. -/
def atServer (n : Nat) (server : Server Link) (client : Option Nat) (a : Server.Run Link Answer) :
    Run Answer := do
  let site := client.bind (← get).clientSite?
  .mapError .fatal <| a.focus (fun _ => { server with channel := server.channel.attach site })
    fun server s =>
      let s := match client with
        | some c => s.setClientSite c server.channel.client?
        | none => s
      s.setTable n (some (.server { server with channel := server.channel.attach none } client))

/-- Runs at a table of either sort. -/
def atTable (n : Nat) (e : Entry) (direct : Site.Run Answer) (server : Server.Run Link Answer) :
    Run Answer :=
  match e with
  | .direct serves table => atSite n serves table table.heapId direct
  | .server s client => atServer n s client server

/-- The address that a term means, where handles are those of a heap. -/
def addressOf (s : Session) (heap : Option Heap) : AddressTerm → Except Answer Address
  | .literal a => .ok a
  | .handle h =>
    match heap with
    | some heap => (heap.resolve h).mapError .refused
    | none => .error .noSuchNumber
  | .saved k =>
    match s.saved[k]? with
    | some a => .ok a
    | none => .error .noSaved

def withAddress (heap : Option Heap) (term : AddressTerm) (next : Address → Run Answer) :
    Run Answer := do
  match (← get).addressOf heap term with
  | .ok a => next a
  | .error answer => return answer

/-- The answer of something that the heap may refuse. -/
def answering {α : Type} (toAnswer : α → Answer) : Except HeapError α → Answer
  | .ok x => toAnswer x
  | .error e => .refused e

/-- Prints a dump, and logs what is logged on the way. -/
def printEntry (held : Option HeapId) (e : Entry) (p : Printing) : Run Dump.Printed := do
  let printed := (← get).dumpOf held e p
  .noteAll printed.log
  return printed

def dumpTable (held : Option HeapId) (p : Printing) (n : Nat) : Run Answer := do
  match (← get).table? n with
  | some e =>
    let printed ← printEntry held e p
    return .printed printed.text printed.failed
  | none => return .noTable

def createHeap (base alignment : Option UInt64) (seed : Option UInt32) : Run Answer := do
  let s ← get
  let settings : Settings := {
    base := base.getD Settings.default.base
    alignment := alignment.getD Settings.default.alignment
    seed := seed.getD Settings.default.seed }
  match Heap.create s.heaps.size settings with
  | .ok heap =>
    set { s with heaps := s.heaps.push heap }
    return .heapNumber s.heaps.size
  | .error e => return .refused e

def allocateAll (n : HeapId) (heap : Heap) (c : ClassId) : Nat → Run (List Handle)
  | 0 => return []
  | count + 1 => do
    match heap.allocate c with
    | some (handle, heap) =>
      modify (·.setHeap n heap)
      return handle :: (← allocateAll n heap c count)
    | none => throw .undefinedClass

def runOnHeap (n : HeapId) (heap : Heap) : HeapOperation → Run Answer
  | .define classInfo => do
    let (c, heap) := heap.define classInfo
    let s ← get
    set { s.setHeap n heap with classes := s.classes.push c }
    return .classNumber s.classes.size
  | .allocate number count => do
    match (← get).classes[number]? with
    | some c => return .handles (← allocateAll n heap c count)
    | none => return .noSuchNumber
  | .store holder field value => do
    match heap.store holder field value with
    | .ok heap =>
      modify (·.setHeap n heap)
      return .done
    | .error e => return .refused e
  | .collect during printing => do
    let (moved, heap) := heap.collect
    modify (·.setHeap n heap)
    .note .debug heap.collectionText
    let dumps ← during.mapM (dumpTable (some n) printing)
    let access := if during.isEmpty then [] else [.access false]
    return .collected moved heap.collections (access ++ dumps)
  | .tryAcquire => return .flag true
  | .handleCount => return .number heap.handles.live
  | .release handles => do
    let (released, heap) := heap.release handles
    modify (·.setHeap n heap)
    return .number released
  | .keep term =>
    withAddress (some heap) term fun a => do
      let s ← get
      set { s with saved := s.saved.push a }
      return .kept a s.saved.size
  | .newHandle term =>
    withAddress (some heap) term fun a => do
      match heap.newHandle a with
      | .ok (handle, heap) =>
        modify (·.setHeap n heap)
        return .handle handle
      | .error e => return .refused e
  | .isLive term => withAddress (some heap) term fun a => return .flag (heap.isLive a)
  | .hashOf term =>
    withAddress (some heap) term fun a => return answering (fun hash => .number hash.toNat) (heap.hashOf a)
  | .classOf term => withAddress (some heap) term fun a => return answering .classInfo (heap.classOf a)
  | .fieldAt term slot => withAddress (some heap) term fun a => return answering .value (heap.fieldAt a slot)
  | .field term name => withAddress (some heap) term fun a => return answering .value (heap.field a name)
  | .read location => return answering .reference (heap.read location)

def addTable (e : Entry) : Run Answer := do
  let s ← get
  set { s with tables := s.tables.push (some e) }
  return .tableNumber s.tables.size

/-- Adds a table over a heap, if the session has it. -/
def addDirect (serves : Bool) (heap : HeapId) : Run Answer := do
  let s ← get
  if heap < s.heaps.size then
    if serves then set { s with clients := s.tables.size :: s.clients }
    addTable (.direct serves (.empty heap))
  else return .noSuchNumber

/-- Adds a server's table with a channel to a client. The client may have ended, but the number must be one of a client. -/
def addServer (client : Nat) (channel : Link) : Run Answer := do
  if client ∈ (← get).clients then addTable (.server (.ofChannel channel) (some client))
  else return .noTable

def createTable : TableKind → Run Answer
  | .sameProcess heap => addDirect false heap
  | .client heap => addDirect true heap
  | .loopback client => addServer client (.route (.loopback ⟨none⟩))
  | .stream client => addServer client (.route (.stream (.ofBytes [] ⟨none, none⟩)))
  | .scripted replies => addTable (.server (.ofChannel (.scripted (.ofReplies replies))) none)
  | .bytes bytes => addTable (.server (.ofChannel (.bytes (.ofBytes bytes .silence))) none)

/-- Ends a table. One that can read its heap gives back its handles. -/
def discard (n : Nat) : Run Unit := do
  match (← get).tables[n]?.join with
  | some (.direct serves table) =>
    let _ ← atSite n serves table table.heapId do
      Site.dropTable
      return .done
  | _ => pure ()
  modify (·.setTable n none)

/-- What is left of a channel when its server is taken away. -/
def channelAnswer : Link → Answer
  | .route (.loopback _) => .unplugged
  | .route (.stream c) => .written c.sink.written
  | .scripted c => .seen c.seen c.replies.length
  | .bytes c => .written c.sink.written

/-- Runs at a table that can read a heap with the address that a term means there. -/
def atSiteWith (n : Nat) (serves : Bool) (table : Table) (heapId : HeapId) (term : AddressTerm)
    (a : Address → Site.Run Answer) : Run Answer := do
  withAddress (← get).heaps[heapId]? term fun object => atSite n serves table heapId (a object)

/-- Runs at a client, which is the only table that serves. -/
def atClient (n : Nat) (e : Entry) (a : Site.Run Answer) : Run Answer :=
  match e with
  | .direct true table => atSite n true table table.heapId a
  | _ => return .noTable

def runOnTable (n : Nat) (e : Entry) : TableOperation → Run Answer
  | .role => return .role e.role
  | .endIndex => return .index e.endIndex
  | .isNull i => return .flag i.isNull
  | .slot i => atTable n e (.slot <$> Site.slot i) (.slot <$> Server.slot i)
  | .slots => return .slots e.slots.toList
  | .indexAt location constant =>
    atTable n e (.index <$> Site.indexAt location constant) (.index <$> Server.indexAt location constant)
  | .existingIndexAt location =>
    atTable n e (.index <$> Site.existingIndexAt location) (.index <$> Server.existingIndexAt location)
  | .indexOf term through constant =>
    match e with
    | .direct serves table =>
      atSiteWith n serves table (through.getD table.heapId) term fun object =>
        .index <$> Site.tagging constant (Site.indexOf object)
    | .server s client =>
      withAddress none term fun object => atServer n s client (.index <$> Server.indexOf object)
  | .existingIndexOf term through =>
    match e with
    | .direct serves table =>
      atSiteWith n serves table (through.getD table.heapId) term fun object =>
        .index <$> Site.existingIndexOf object
    | .server _ _ => return .noTable
  | .pointerOf i through =>
    match e with
    | .direct serves table =>
      atSite n serves table (through.getD table.heapId) (.pointer <$> Site.pointerOf i)
    | .server s client => atServer n s client (.pointer <$> Server.pointerOf i)
  | .tag i =>
    atTable n e (do Site.tag i; return .done) (do Server.tag i; return .done)
  | .isTagged i =>
    atTable n e (return .flag ((← get).table.isTagged i)) (return .flag ((← get).isTagged i))
  | .dump printing => do
    let printed ← printEntry none e printing
    return .printed printed.text printed.failed
  | .debug =>
    match e with
    | .server s _ => return .text s.debugText
    | .direct _ _ => return .noTable
  | .serve request => atClient n e (.response <$> Site.serve request)
  | .serveObject term through =>
    match e with
    | .direct true table => do
      withAddress (← get).heaps[through.getD table.heapId]? term fun object =>
        atSite n true table table.heapId (.response <$> Site.serve (.getIndex object))
    | _ => return .noTable
  | .serveStream requests bytes capacity =>
    atClient n e do
      let source := .ofBytes (requests.flatMap Wire.frame ++ bytes)
      let (result, sink) ← KnownObjects.serveStream source ⟨[], capacity⟩ 0
      return .served result sink.written

/-- The texts of a dump that a compilation makes of its table. -/
def compilationDump (n : Nat) (options : DumpOptions) : Run String := do
  match (← get).tables[n]?.join with
  | some e => return (← printEntry none e ⟨options, none⟩).text
  | none => return ""

/-- Runs with a table set apart for a pass, and makes it reachable again. -/
def settingApart {α : Type} (n : Nat) (a : Run α) : Run (Except Stop α) := do
  modify fun s => { s with compiling := n :: s.compiling }
  let result ← a.attempt
  modify fun s => { s with compiling := s.compiling.tail }
  return result

/-- Runs a compilation over a table. The pass gives its answers, and the fatal error that ended it if there was one. -/
def runCompilation (n : Nat) (options : DumpOptions) (pass : Run (List Answer × Option Fatal)) :
    Run Answer := do
  match (← get).idleTable? n with
  | none => return .noTable
  | some e =>
    let id := (← get).compilations + 1
    modify fun s => { s with compilations := id }
    Compilation.announce id e.role
    let debug := e.compilationText? id
    let before ← compilationDump n options
    match ← settingApart n pass with
    | .error stop =>
      discard n
      throw stop
    | .ok (answers, failure) =>
      let endIndex (s : Session) : Index := ((s.tables[n]?.join).map Entry.endIndex).getD .null
      match ← Compilation.conclude id endIndex (discard n) (failure.elim (.ok ()) .error) with
      | .ok () => return .compiled id debug answers before (← compilationDump n options)
      | .error aborted => return .aborted aborted debug answers before

mutual

def step : Command → Run Answer
  | .createHeap base alignment seed => createHeap base alignment seed
  | .onHeap heapId operation => do
    match (← get).heaps[heapId]? with
    | some heap => runOnHeap heapId heap operation
    | none => return .noSuchNumber
  | .createTable kind => createTable kind
  | .onTable n operation => do
    match (← get).table? n with
    | some e => runOnTable n e operation
    | none => return .noTable
  | .dropTable n => do
    match (← get).idleTable? n with
    | some _ =>
      discard n
      return .flag true
    | none => return .flag false
  | .intoChannel n => do
    match (← get).idleTable? n with
    | some (.server s _) =>
      modify (·.setTable n none)
      return channelAnswer s.channel
    | _ => return .noTable
  | .compile n commands options => runCompilation n options (runPass commands)

/-- Runs the commands of a pass until a fatal error. -/
def runPass : List Command → Run (List Answer × Option Fatal)
  | [] => return ([], none)
  | c :: rest => do
    match ← (step c).attempt with
    | .ok answer =>
      let (answers, failure) ← runPass rest
      return (answer :: answers, failure)
    | .error (.fatal f) => return ([], some f)
    | .error .undefinedClass => throw .undefinedClass

end

/-- Runs one command at the top level, where a stop is an answer. -/
def perform (c : Command) (s : Session) : Answer × List LogRecord × Session :=
  match (step c).run s with
  | ⟨.ok answer, s, log⟩ => (answer, log, s)
  | ⟨.error (.fatal f), s, log⟩ => (.fatal f, log, s)
  | ⟨.error .undefinedClass, s, log⟩ => (.undefinedClass, log, s)

/-- Runs commands in order, and gives each answer with what was logged. -/
def performAll (s : Session) : List Command → List (Answer × List LogRecord)
  | [] => []
  | c :: rest =>
    let (answer, log, s) := perform c s
    (answer, log) :: performAll s rest

end KnownObjects.Session
