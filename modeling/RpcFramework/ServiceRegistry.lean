-- The service registry over the in-memory ZooKeeper stub. Both have a mutex of
-- their own, which is not recursive. A new child of a watched node runs `refresh`
-- from inside `create`, while the mutex of the stub is held.
import RpcFramework.LoadBalancer
import RpcFramework.Locks
import RpcFramework.Runs

namespace rpc.registry

open text locks

/-! ## The data -/

/-- `stub_->mu`, and `mu_` of the registry. -/
inductive Mutex
  | stub
  | cache
  deriving DecidableEq

/-- The tables of the stub, the cache, and the balancer. A watcher is the callback that
`refresh` registers, known by the service that it captures. A child list or a cache entry that
is missing reads as an empty one. -/
structure Registry where
  nodes : Text → Option Text
  children : Text → List Text
  watchers : Text → Option Text
  cache : Text → List ServiceEndpoint
  lb : LoadBalancer

abbrev Prog (α : Type) := locks.Prog Mutex Registry Failure α

/-- A thread between two calls: it holds no mutex. -/
def idle (d : Registry) : Locked Mutex Registry := ⟨fun _ => false, d⟩

/-! ## Paths -/

def slash : UInt8 := '/'.toUInt8

def colon : UInt8 := ':'.toUInt8

def kRootPath : Text := ascii ['/', 'r', 'p', 'c']

def servicePath (service : Text) : Text := kRootPath ++ [slash] ++ service

/-- The name of a child: `host:port`. -/
def childName (host : Text) (port : UInt16) : Text := host ++ [colon] ++ decimal port.toNat

def nodePath (service host : Text) (port : UInt16) : Text :=
  servicePath service ++ [slash] ++ childName host port

/-- The parent and the name of a node, cut at the last slash, unless that is the first byte. -/
def parentOf (path : Text) : Option (Text × Text) :=
  match rfind slash path with
  | some i => if 0 < i then some (path.take i, path.drop (i + 1)) else none
  | none => none

/-! ## The stub -/

/-- What `create` does to the tables, and the watcher that it has to run. -/
def addNode (path data : Text) (d : Registry) : Option Text × Registry :=
  let d := { d with nodes := Function.update d.nodes path (some data) }
  match parentOf path with
  | none => (none, d)
  | some (parent, child) =>
    if child ∈ d.children parent then (none, d)
    else (d.watchers parent,
      { d with children := Function.update d.children parent (d.children parent ++ [child]) })

/-- What `remove` does to the tables. -/
def dropNode (path : Text) (d : Registry) : Registry :=
  let d := { d with nodes := Function.update d.nodes path none }
  match parentOf path with
  | none => d
  | some (parent, child) =>
    { d with
      children := Function.update d.children parent ((d.children parent).filter (· ≠ child)) }

def get (path : Text) : Prog Text :=
  Prog.lockGuard .stub (Prog.act fun d => ((d.nodes path).getD [], d))

def getChildren (path : Text) : Prog (List Text) :=
  Prog.lockGuard .stub (Prog.act fun d => (d.children path, d))

def watchChildren (path service : Text) : Prog Bool :=
  Prog.lockGuard .stub
    (Prog.act fun d => (true, { d with watchers := Function.update d.watchers path (some service) }))

def remove (path : Text) : Prog Bool :=
  Prog.lockGuard .stub (Prog.act fun d => (true, dropNode path d))

/-! ## The registry -/

/-- `static_cast<uint16_t>` of an `int`. -/
def castPort (v : Int32) : UInt16 := v.toUInt32.toUInt16

def readInt (s : Text) : Except Failure Int32 := (stoi s).mapError Failure.stoi

/-- The weight that the data of a node gives. An empty string leaves the default. -/
def readWeight (weightStr : Text) : Except Failure Int32 :=
  if weightStr = [] then .ok 1 else readInt weightStr

/-- The loop of `refresh` over the children. A child without a colon is passed over. -/
def readEndpoints (path : Text) : List Text → Prog (List ServiceEndpoint)
  | [] => return []
  | child :: children =>
    match rfind colon child with
    | none => readEndpoints path children
    | some i => do
      let port ← Prog.ofExcept (readInt (child.drop (i + 1)))
      let weightStr ← get (path ++ [slash] ++ child)
      let weight ← Prog.ofExcept (readWeight weightStr)
      let endpoints ← readEndpoints path children
      return ⟨child.take i, castPort port, weight⟩ :: endpoints

def refresh (service : Text) : Prog Unit := do
  let _ ← watchChildren (servicePath service) service
  let children ← getChildren (servicePath service)
  let endpoints ← readEndpoints (servicePath service) children
  Prog.lockGuard .cache
    (Prog.act fun d => ((), { d with cache := Function.update d.cache service endpoints }))

/-- The call of a watcher, if there is one. -/
def runWatcher : Option Text → Prog Unit
  | some service => refresh service
  | none => return ()

/-- `create` and `create_ephemeral`. The watcher runs before the guard frees the mutex. -/
def create (path data : Text) : Prog Bool :=
  Prog.lockGuard .stub do
    let watcher ← Prog.act (addNode path data)
    runWatcher watcher
    return true

def registerService (service host : Text) (port : UInt16) (weight : Int32) : Prog Bool := do
  let _ ← create (servicePath service) []
  create (nodePath service host port) (decimalInt weight)

def unregisterService (service host : Text) (port : UInt16) : Prog Bool :=
  remove (nodePath service host port)

/-- The cached endpoints, read under `mu_`. -/
def readCache (service : Text) : Prog (List ServiceEndpoint) :=
  Prog.lockGuard .cache (Prog.act fun d => (d.cache service, d))

/-- `discover` on an empty cache entry reads the tables first. -/
def refreshed (service : Text) (cached : List ServiceEndpoint) : Prog (List ServiceEndpoint) :=
  if cached = [] then do
    refresh service
    readCache service
  else return cached

/-- `lb_->select`. -/
def select (endpoints : List ServiceEndpoint) (draw : Nat) : Prog ServiceEndpoint := do
  let result ← Prog.act fun d =>
    ((d.lb.select endpoints draw).1, { d with lb := (d.lb.select endpoints draw).2 })
  Prog.ofExcept result

def discover (service : Text) (draw : Nat) : Prog ServiceEndpoint := do
  let cached ← readCache service
  let endpoints ← refreshed service cached
  select endpoints draw

/-! ## What the functions do -/

/-- The endpoints that `refresh` builds from the tables. -/
def endpointsOf (nodes : Text → Option Text) (path : Text) :
    List Text → Except Failure (List ServiceEndpoint)
  | [] => .ok []
  | child :: children =>
    match rfind colon child with
    | none => endpointsOf nodes path children
    | some i => do
      let port ← readInt (child.drop (i + 1))
      let weight ← readWeight ((nodes (path ++ [slash] ++ child)).getD [])
      let endpoints ← endpointsOf nodes path children
      return ⟨child.take i, castPort port, weight⟩ :: endpoints

theorem ok_of_bind {ε α β : Type} {x : Except ε α} {f : α → Except ε β} {b : β}
    (h : (x >>= f) = .ok b) : ∃ a, x = .ok a ∧ f a = .ok b := by
  cases x with
  | error e => cases h
  | ok a => exact ⟨a, rfl, h⟩

variable {t : Locked Mutex Registry}

theorem get_spec (h : t.held .stub = false) (path : Text) :
    get path t = .returned ((t.data.nodes path).getD []) t :=
  Prog.lockGuard_act h _

/-- The loop changes nothing, and gives the endpoints or the first exception. -/
theorem readEndpoints_spec (h : t.held .stub = false) (path : Text) (children : List Text) :
    readEndpoints path children t =
      Prog.ofExcept (endpointsOf t.data.nodes path children) t := by
  induction children with
  | nil => rfl
  | cons child children ih =>
    unfold readEndpoints endpointsOf
    cases hc : rfind colon child with
    | none => exact ih
    | some i =>
      refine Prog.bind_ofExcept rfl fun port => ?_
      rw [Prog.bind_returned (get_spec h _)]
      exact Prog.bind_ofExcept rfl fun weight => Prog.bind_ofExcept ih fun endpoints => rfl

/-- The tables after `refresh` has set its watcher. -/
def watched (service : Text) (d : Registry) : Registry :=
  { d with watchers := Function.update d.watchers (servicePath service) (some service) }

/-- The tables after `refresh` has stored its endpoints. -/
def stored (service : Text) (endpoints : List ServiceEndpoint) (d : Registry) : Registry :=
  { d with cache := Function.update d.cache service endpoints }

theorem stored_cache (service : Text) (endpoints : List ServiceEndpoint) (d : Registry) :
    (stored service endpoints d).cache service = endpoints := Function.update_self ..

/-- The endpoints that `refresh` finds for a service. -/
def found (service : Text) (d : Registry) : Except Failure (List ServiceEndpoint) :=
  endpointsOf d.nodes (servicePath service) (d.children (servicePath service))

theorem refresh_spec (service : Text) (d : Registry) :
    refresh service (idle d) = match found service d with
      | .ok endpoints => .returned () (idle (stored service endpoints (watched service d)))
      | .error e => .threw e (idle (watched service d)) := by
  have hwatch : watchChildren (servicePath service) service (idle d) =
      .returned true (idle (watched service d)) := Prog.lockGuard_act rfl _
  have hread : getChildren (servicePath service) (idle (watched service d)) =
      .returned (d.children (servicePath service)) (idle (watched service d)) :=
    Prog.lockGuard_act rfl _
  have hloop := readEndpoints_spec (t := idle (watched service d)) rfl (servicePath service)
    (d.children (servicePath service))
  change _ = Prog.ofExcept (found service d) _ at hloop
  unfold refresh
  rw [Prog.bind_returned hwatch, Prog.bind_returned hread, Prog.bind_run, hloop]
  cases found service d with
  | error e => rfl
  | ok endpoints => exact Prog.lockGuard_act rfl _

/-- Inside `create`, the first thing that `refresh` does is to lock the mutex of the stub. -/
theorem refresh_held (h : t.held .stub = true) (service : Text) :
    refresh service t = .relocked .stub :=
  Prog.bind_relocked (Prog.lockGuard_held h _) _

/-- `create` returns, unless there is a watcher to run. -/
theorem create_spec (path data : Text) (d : Registry) :
    create path data (idle d) = match (addNode path data d).1 with
      | none => .returned true (idle (addNode path data d).2)
      | some _ => .relocked .stub := by
  unfold create
  rw [Prog.lockGuard_free rfl]
  change Prog.release .stub ((runWatcher (addNode path data d).1 >>= fun _ => pure true)
    ⟨Function.update (fun _ => false) .stub true, (addNode path data d).2⟩) = _
  cases (addNode path data d).1 with
  | none =>
    change Outcome.returned true (Locked.mk (Function.update (Function.update _ _ true) _ false) _) =
      _
    rw [Function.update_idem, Function.update_eq_self_iff.mpr rfl]
    rfl
  | some service =>
    have hheld : runWatcher (some service)
        (⟨Function.update (fun _ => false) .stub true, (addNode path data d).2⟩ :
          Locked Mutex Registry) = .relocked .stub :=
      refresh_held (by simp) service
    rw [Prog.bind_relocked hheld]
    rfl

/-- The tables after `register_service`, when no watcher had to run. -/
def registered (service host : Text) (port : UInt16) (weight : Int32) (d : Registry) : Registry :=
  (addNode (nodePath service host port) (decimalInt weight)
    (addNode (servicePath service) [] d).2).2

theorem registerService_spec (service host : Text) (port : UInt16) (weight : Int32)
    (d : Registry) :
    registerService service host port weight (idle d) =
      if (addNode (servicePath service) [] d).1 = none ∧
          (addNode (nodePath service host port) (decimalInt weight)
            (addNode (servicePath service) [] d).2).1 = none then
        .returned true (idle (registered service host port weight d))
      else .relocked .stub := by
  have hfirst := create_spec (servicePath service) [] d
  unfold registerService
  cases hw : (addNode (servicePath service) [] d).1 with
  | some watcher =>
    rw [hw] at hfirst
    rw [Prog.bind_relocked hfirst, if_neg (by simp)]
  | none =>
    rw [hw] at hfirst
    rw [Prog.bind_returned hfirst, create_spec]
    cases (addNode (nodePath service host port) (decimalInt weight)
      (addNode (servicePath service) [] d).2).1 <;> rfl

theorem unregisterService_spec (service host : Text) (port : UInt16) (d : Registry) :
    unregisterService service host port (idle d) =
      .returned true (idle (dropNode (nodePath service host port) d)) := by
  unfold unregisterService remove
  rw [Prog.lockGuard_act rfl]
  rfl

theorem readCache_spec (service : Text) (d : Registry) :
    readCache service (idle d) = .returned (d.cache service) (idle d) :=
  Prog.lockGuard_act rfl _

theorem discover_spec (service : Text) (draw : Nat) (d : Registry) :
    discover service draw (idle d) =
      if d.cache service = [] then
        match found service d with
        | .ok endpoints =>
          select endpoints draw (idle (stored service endpoints (watched service d)))
        | .error e => .threw e (idle (watched service d))
      else select (d.cache service) draw (idle d) := by
  unfold discover
  rw [Prog.bind_returned (readCache_spec service d)]
  unfold refreshed
  split
  · have hrefresh := refresh_spec service d
    cases hf : found service d with
    | error e =>
      rw [hf] at hrefresh
      exact Prog.bind_threw (Prog.bind_threw hrefresh _) _
    | ok endpoints =>
      rw [hf] at hrefresh
      have hcache := readCache_spec service (stored service endpoints (watched service d))
      rw [stored_cache] at hcache
      exact Prog.bind_returned ((Prog.bind_returned hrefresh _).trans hcache) _
  · rfl

/-! ## Runs of calls -/

inductive Call
  | registerService (service host : Text) (port : UInt16) (weight : Int32)
  | unregisterService (service host : Text) (port : UInt16)
  | discover (service : Text) (draw : Nat)
  deriving DecidableEq

/-- A call, without its result. -/
def runCall : Call → Prog Unit
  | .registerService service host port weight => do
    let _ ← registerService service host port weight
  | .unregisterService service host port => do
    let _ ← unregisterService service host port
  | .discover service draw => do
    let _ ← discover service draw

/-- The members before the constructor of the registry runs. -/
def Registry.new (strategy : LBStrategy) : Registry :=
  ⟨fun _ => none, fun _ => [], fun _ => none, fun _ => [], makeLoadBalancer strategy⟩

/-- The tables after the constructor. -/
def Registry.started (strategy : LBStrategy) : Registry :=
  (addNode kRootPath [] (Registry.new strategy)).2

/-- The constructor creates the root node. No watcher runs, and the root is no child. -/
theorem construct_spec (strategy : LBStrategy) :
    create kRootPath [] (idle (Registry.new strategy)) =
      .returned true (idle (Registry.started strategy)) := by
  rw [create_spec]
  rfl

/-- One thread that uses a registry: what it holds and sees, the mutex that it tried to lock
again, and its calls, the newest first. -/
structure RegistryRun where
  thread : Locked Mutex Registry
  relocked : Option Mutex
  calls : List Call

/-- Any calls, one after the other. A thread that locked a mutex again makes no further call,
and a call that runs into something undefined is no step. -/
def RegistryRun.machine (strategy : LBStrategy) : runs.Machine RegistryRun Call where
  init := ⟨idle (Registry.started strategy), none, []⟩
  step s call :=
    match s.relocked, runCall call s.thread with
    | none, .returned _ t => some ⟨t, none, call :: s.calls⟩
    | none, .threw .undefined _ => none
    | none, .threw _ t => some ⟨t, none, call :: s.calls⟩
    | none, .relocked m => some ⟨s.thread, some m, call :: s.calls⟩
    | some _, _ => none

/-! ## What a call does to the tables -/

/-- A new node at the path gives a watched node a new child. -/
def fires (d : Registry) (path : Text) : Bool :=
  match parentOf path with
  | some (parent, child) => decide (child ∉ d.children parent) && (d.watchers parent).isSome
  | none => false

theorem addNode_watcher (path data : Text) (d : Registry) :
    (addNode path data d).1 = none ↔ fires d path = false := by
  unfold addNode fires
  cases parentOf path with
  | none => simp
  | some pc =>
    by_cases hc : pc.2 ∈ d.children pc.1 <;> simp [hc]

/-- The node of a service has a shorter parent than the nodes under it. -/
theorem parent_ne {service host : Text} {port : UInt16} {p1 p2 c1 c2 : Text}
    (h1 : parentOf (servicePath service) = some (p1, c1))
    (h2 : parentOf (nodePath service host port) = some (p2, c2)) : p1 ≠ p2 := by
  unfold parentOf at h1 h2
  obtain ⟨j, hj, hle⟩ := rfind_from (c := slash) (servicePath service) (childName host port)
  have hpath : nodePath service host port =
      servicePath service ++ slash :: childName host port := by
    simp [nodePath]
  rw [hpath] at h2
  cases hi : rfind slash (servicePath service) with
  | none => rw [hi] at h1; cases h1
  | some i =>
    have hlt := rfind_lt hi
    have hjlt := rfind_lt hj
    rw [hi] at h1
    rw [hj] at h2
    simp only [Option.ite_none_right_eq_some, Option.some.injEq, Prod.mk.injEq] at h1 h2
    intro hsame
    have hlen := congrArg List.length (h1.2.1.trans (hsame.trans h2.2.1.symm))
    rw [List.length_take, List.length_take] at hlen
    omega

/-- Creating the node of a service has no say in whether a node under it fires. -/
theorem fires_addNode (service host data : Text) (port : UInt16) (d : Registry) :
    fires (addNode (servicePath service) data d).2 (nodePath service host port) =
      fires d (nodePath service host port) := by
  unfold fires
  cases h2 : parentOf (nodePath service host port) with
  | none => rfl
  | some pc =>
    obtain ⟨p2, c2⟩ := pc
    have hchildren : (addNode (servicePath service) data d).2.children p2 = d.children p2 ∧
        (addNode (servicePath service) data d).2.watchers = d.watchers := by
      unfold addNode
      cases h1 : parentOf (servicePath service) with
      | none => exact ⟨rfl, rfl⟩
      | some pc1 =>
        obtain ⟨p1, c1⟩ := pc1
        dsimp only
        split
        · exact ⟨rfl, rfl⟩
        · exact ⟨Function.update_of_ne (parent_ne h1 h2).symm _ _, rfl⟩
    simp only [hchildren]

/-- `register_service` returns exactly when neither of its nodes fires. -/
theorem registerService_cases (service host : Text) (port : UInt16) (weight : Int32)
    (d : Registry) :
    registerService service host port weight (idle d) =
      if fires d (servicePath service) = false ∧ fires d (nodePath service host port) = false then
        .returned true (idle (registered service host port weight d))
      else .relocked .stub := by
  rw [registerService_spec]
  simp only [addNode_watcher, fires_addNode]

/-- What a call that comes back does to the tables. -/
inductive Effect (d : Registry) : Call → Registry → Prop
  | registered {service host : Text} {port : UInt16} {weight : Int32}
      (hservice : fires d (servicePath service) = false)
      (hnode : fires d (nodePath service host port) = false) :
      Effect d (.registerService service host port weight) (registered service host port weight d)
  | unregistered {service host : Text} {port : UInt16} :
      Effect d (.unregisterService service host port) (dropNode (nodePath service host port) d)
  | cached {service : Text} {draw : Nat} (lb : LoadBalancer) (hcache : d.cache service ≠ []) :
      Effect d (.discover service draw) { d with lb := lb }
  | refreshed {service : Text} {draw : Nat} {endpoints : List ServiceEndpoint} (lb : LoadBalancer)
      (hcache : d.cache service = []) (hfound : found service d = .ok endpoints) :
      Effect d (.discover service draw)
        { stored service endpoints (watched service d) with lb := lb }
  | failed {service : Text} {draw : Nat} {e : Failure} (hcache : d.cache service = [])
      (hfound : found service d = .error e) :
      Effect d (.discover service draw) (watched service d)

/-- The call adds a child under a watched node. -/
def relocks (d : Registry) : Call → Bool
  | .registerService service host port _ =>
    fires d (servicePath service) || fires d (nodePath service host port)
  | _ => false

theorem runCall_relocked {d : Registry} {call : Call} (h : relocks d call = true) :
    runCall call (idle d) = .relocked .stub := by
  cases call with
  | registerService service host port weight =>
    apply Prog.bind_relocked
    rw [registerService_cases, if_neg]
    simp only [relocks, Bool.or_eq_true] at h
    rintro ⟨h1, h2⟩
    simp [h1, h2] at h
  | unregisterService service host port => cases h
  | discover service draw => cases h

/-- The balancer changes its own member only. -/
theorem select_cases (endpoints : List ServiceEndpoint) (draw : Nat) (d : Registry) :
    ∃ lb, (∃ ep, select endpoints draw (idle d) = .returned ep (idle { d with lb := lb }) ∧
        ep ∈ endpoints) ∨
      ∃ e, select endpoints draw (idle d) = .threw e (idle { d with lb := lb }) := by
  refine ⟨(d.lb.select endpoints draw).2, ?_⟩
  have hselect : select endpoints draw (idle d) = Prog.ofExcept (d.lb.select endpoints draw).1
      (idle { d with lb := (d.lb.select endpoints draw).2 }) := rfl
  rw [hselect]
  cases hr : (d.lb.select endpoints draw).1 with
  | error e => exact Or.inr ⟨e, rfl⟩
  | ok ep => exact Or.inl ⟨ep, rfl, LoadBalancer.select_mem hr⟩

/-- `discover` has one of its effects. What it returns is one of the endpoints that are cached
after it. -/
theorem discover_cases (service : Text) (draw : Nat) (d : Registry) :
    ∃ d', Effect d (.discover service draw) d' ∧
      ((∃ ep, discover service draw (idle d) = .returned ep (idle d') ∧ ep ∈ d'.cache service) ∨
        ∃ e, discover service draw (idle d) = .threw e (idle d')) := by
  rw [discover_spec]
  split
  · rename_i hcache
    cases hfound : found service d with
    | error e => exact ⟨_, .failed hcache hfound, Or.inr ⟨e, rfl⟩⟩
    | ok endpoints =>
      obtain ⟨lb, hpick⟩ :=
        select_cases endpoints draw (stored service endpoints (watched service d))
      refine ⟨_, .refreshed lb hcache hfound, hpick.imp_left ?_⟩
      rintro ⟨ep, hep, hmem⟩
      refine ⟨ep, hep, ?_⟩
      simpa [stored] using hmem
  · rename_i hcache
    obtain ⟨lb, hpick⟩ := select_cases (d.cache service) draw d
    exact ⟨_, .cached lb hcache, hpick⟩

/-- A call that adds no child under a watched node comes back, with one of the effects. -/
theorem runCall_effect {d : Registry} {call : Call} (h : relocks d call = false) :
    ∃ d', Effect d call d' ∧ (runCall call (idle d) = .returned () (idle d') ∨
      ∃ e, runCall call (idle d) = .threw e (idle d')) := by
  cases call with
  | registerService service host port weight =>
    simp only [relocks, Bool.or_eq_false_iff] at h
    refine ⟨_, .registered h.1 h.2, Or.inl ?_⟩
    refine Prog.bind_returned (a := true) ?_ _
    rw [registerService_cases, if_pos h]
  | unregisterService service host port =>
    exact ⟨_, .unregistered, Or.inl (Prog.bind_returned (unregisterService_spec ..) _)⟩
  | discover service draw =>
    obtain ⟨d', heffect, hret | hthrow⟩ := discover_cases service draw d
    · obtain ⟨ep, hret, -⟩ := hret
      exact ⟨d', heffect, Or.inl (Prog.bind_returned hret _)⟩
    · obtain ⟨e, hthrow⟩ := hthrow
      exact ⟨d', heffect, Or.inr ⟨e, Prog.bind_threw hthrow _⟩⟩

namespace RegistryRun

variable {strategy : LBStrategy} {s s' : RegistryRun} {call : Call} {d : Registry}

/-- What a step of a run is, when the thread holds no mutex before it. -/
theorem step_cases (hidle : s.thread = idle d) (h : (machine strategy).step s call = some s') :
    s.relocked = none ∧ s'.calls = call :: s.calls ∧
      ((relocks d call = true ∧ s'.thread = idle d ∧ s'.relocked = some .stub) ∨
        (relocks d call = false ∧ s'.relocked = none ∧ ∃ d', Effect d call d' ∧
          s'.thread = idle d')) := by
  cases hrel : s.relocked with
  | some m => simp [machine, hrel] at h
  | none =>
    refine ⟨rfl, ?_⟩
    simp only [machine, hrel, hidle] at h
    cases hr : relocks d call with
    | true =>
      rw [runCall_relocked hr] at h
      cases h
      exact ⟨rfl, Or.inl ⟨rfl, rfl, rfl⟩⟩
    | false =>
      obtain ⟨d', heffect, hret | ⟨e, hthrow⟩⟩ := runCall_effect hr
      · rw [hret] at h
        cases h
        exact ⟨rfl, Or.inr ⟨rfl, rfl, d', heffect, rfl⟩⟩
      · rw [hthrow] at h
        cases e <;> cases h <;> exact ⟨rfl, Or.inr ⟨rfl, rfl, d', heffect, rfl⟩⟩

/-- Between two calls the thread holds no mutex. -/
theorem idle_reach {ok : RegistryRun → Call → Prop} (h : (machine strategy).ReachUnder ok s) :
    ∃ d, s.thread = idle d := by
  refine runs.Machine.ReachUnder.invariant (I := fun s => ∃ d, s.thread = idle d) ⟨_, rfl⟩ ?_ h
  rintro s call s' - ⟨d, hidle⟩ - hs
  obtain ⟨-, -, ⟨-, hthread, -⟩ | ⟨-, -, d', -, hthread⟩⟩ := step_cases hidle hs
  · exact ⟨d, hthread⟩
  · exact ⟨d', hthread⟩

end RegistryRun

end rpc.registry
