import BarebonesProxy.CacheContents
import BarebonesProxy.ProxyRules
import BarebonesProxy.ServerReloads
import BarebonesProxy.Worker

set_option autoImplicit false

/-!
# The running proxy

Connections, requests, background insertions, reloads and the clock take steps in any
order. A step of a connection or a request answers one operation of its program. Two
records serve the proofs only: `origin` names the request whose insertion an engine holds
under a key, and `source` the one whose asset a request got from the cache.
-/
namespace BarebonesProxy.Running
open RustNet RustStrings RustState ProxyConfig Http Cache LruMap RuntimeConfig Server
open EffectPrograms Proxy ProxyProtocol Worker Runs

section Model
variable [HttpCrate]

/-- What the outside world says to a step that asks it. -/
structure Answer where
  response : Option Response
  handshake : Bool

def hitSource (origin : ℕ → Str → Option ℕ) : ((e : Effect) × e.Reply) → Option ℕ
  | ⟨.cacheGet engine key, some _⟩ => origin engine key
  | _ => none

def recordOrigin (origin : ℕ → Str → Option ℕ) (insertion : CacheInsertion) (request : ℕ) :
    ℕ → Str → Option ℕ := fun engine key =>
  if engine = insertion.engine ∧ key = insertion.key then some request else origin engine key

variable [TlsCrate]

/-- A connection with the configuration loaded at its accept. A panic ends its task. -/
structure Connection where
  accepted : ActiveConfig
  peerAddr : SocketAddr
  task : Option (Program (Option Served))

def Connection.served (connection : Connection) : Option Served :=
  match connection.task with
  | some (.pure served) => served
  | _ => none

structure RequestTask where
  connection : ℕ
  exchange : Exchange
  trace : ProxyTrace
  program : Option (Program (Except BoxError Response))
  source : Option ℕ

structure Pending where
  request : ℕ
  insertion : CacheInsertion

/-- A connection that is to be served is first configured, with the configuration that is
published by then. -/
def startServing (config : ActiveConfig) :
    Program (Option Served) → Option (Program (Option Served))
  | .pure (some served) =>
    match serveConnection config with
    | .returned _ => some (.pure (some served))
    | .panicked => none
  | p => some p

variable [LruCrate]

structure System where
  server : ServerState
  now : ℕ
  connections : List Connection
  requests : List RequestTask
  pending : List Pending
  origin : ℕ → Str → Option ℕ

def System.start (server : ServerState) : System := ⟨server, 0, [], [], [], fun _ _ => none⟩

def perform (heap : Heap) (now : ℕ) (answer : Answer) : (e : Effect) → Outcome e.Reply × Heap
  | .isBlacklisted manager ip =>
    let (result, m) := Security.isBlacklisted (heap.managers manager) now ip
    (result, heap.setManager manager m)
  | .checkAndRecordRequest manager ip =>
    let (result, m) := Security.checkAndRecordRequest (heap.managers manager) now ip
    (result, heap.setManager manager m)
  | .recordTlsFailure manager ip =>
    let (result, m) := Security.recordTlsFailure (heap.managers manager) now ip
    (result, heap.setManager manager m)
  | .tlsHandshake => (.returned answer.handshake, heap)
  | .cacheGet engine key =>
    let (found, e) := (heap.engines engine).get now key
    (.returned found, heap.setEngine engine e)
  | .maxFileSizeBytes engine => (.returned (heap.engines engine).maxFileSizeBytes, heap)
  | .authRequest _ => (.returned answer.response, heap)
  | .upstreamRequest _ => (.returned answer.response, heap)
  | .spawnInsert _ => (.returned (), heap)
  | .spawnTunnel _ => (.returned (), heap)

def spawnedBy (request : ℕ) : Effect → List Pending
  | .spawnInsert insertion => [⟨request, insertion⟩]
  | _ => []

def System.withHeap (s : System) (heap : Heap) : System :=
  { s with server := { s.server with heap } }

def RequestTask.answered (task : RequestTask) (origin : ℕ → Str → Option ℕ) (e : Effect)
    (k : e.Reply → Program (Except BoxError Response)) (reply : e.Reply) : RequestTask :=
  { task with
    trace := task.trace ++ [⟨e, reply⟩]
    program := some (k reply)
    source := (hitSource origin ⟨e, reply⟩).or task.source }

def System.accept (s : System) (stream : TcpStream) (peerAddr : SocketAddr) : System :=
  let accepted := s.server.config
  { s with
    connections := s.connections ++
      [⟨accepted, peerAddr, some (connectionTask accepted stream peerAddr)⟩] }

def System.connect (s : System) (i : ℕ) (answer : Answer) : System :=
  match s.connections[i]? with
  | none => s
  | some connection =>
    match connection.task with
    | some (.op e k) =>
      let (outcome, heap) := perform s.server.heap s.now answer e
      let task := match outcome with
        | .returned reply => startServing s.server.config (k reply)
        | .panicked => none
      { s.withHeap heap with connections := s.connections.set i { connection with task } }
    | _ => s

variable [CaseMapping]

/-- A request arrives; `handle_request` loads the configuration published now. -/
def System.request (s : System) (i : ℕ) (request : Request) : System :=
  match s.connections[i]?.bind Connection.served with
  | none => s
  | some served =>
    let exchange := served.exchange s.server.config request
    { s with
      requests := s.requests ++ [⟨i, exchange, [], some (handleRequest exchange), none⟩] }

def System.serve (s : System) (i : ℕ) (answer : Answer) : System :=
  match s.requests[i]? with
  | none => s
  | some task =>
    match task.program with
    | some (.op e k) =>
      match perform s.server.heap s.now answer e with
      | (.returned reply, heap) =>
        { s.withHeap heap with
          requests := s.requests.set i (task.answered s.origin e k reply)
          pending := s.pending ++ spawnedBy i e }
      | (.panicked, heap) =>
        { s.withHeap heap with requests := s.requests.set i { task with program := none } }
    | _ => s

def System.insert (s : System) (i : ℕ) : System :=
  match s.pending[i]? with
  | none => s
  | some ⟨request, insertion⟩ =>
    let (result, engine) := (s.server.heap.engines insertion.engine).insert s.now insertion.key
      insertion.status insertion.headers insertion.body none
    { s.withHeap (s.server.heap.setEngine insertion.engine engine) with
      pending := s.pending.eraseIdx i
      origin := if result.inserted then recordOrigin s.origin insertion request else s.origin }

inductive Action where
  | accept (stream : TcpStream) (peerAddr : SocketAddr)
  | connect (connection : ℕ) (answer : Answer)
  | request (connection : ℕ) (request : Request)
  | serve (request : ℕ) (answer : Answer)
  | insert (index : ℕ)
  | tick (duration : ℕ)
  | reload (env : Environment)

def System.step (s : System) : Action → System
  | .accept stream peerAddr => s.accept stream peerAddr
  | .connect i answer => s.connect i answer
  | .request i request => s.request i request
  | .serve i answer => s.serve i answer
  | .insert i => s.insert i
  | .tick duration => { s with now := s.now + duration }
  | .reload env => { s with server := s.server.reload env }

def System.after (s : System) (actions : List Action) : System := actions.foldl System.step s

end Model

end BarebonesProxy.Running
