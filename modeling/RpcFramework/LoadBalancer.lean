-- The load balancers. Each picks one endpoint of a list, by a random draw, by a
-- counter, by the weights, or by a hash of a key. Random numbers are inputs here.
import RpcFramework.Text

namespace rpc.registry

open text

structure ServiceEndpoint where
  host : Text
  port : UInt16
  weight : Int32 := 1
  deriving DecidableEq

/-- `to_string`: the host, a colon, the port. -/
def ServiceEndpoint.toText (ep : ServiceEndpoint) : Text :=
  ep.host ++ ascii [':'] ++ decimal ep.port.toNat

/-- What stops a function of the registry: an exception, or a step that C++ leaves undefined. -/
inductive Failure
  | runtimeError (what : String)
  | stoi (e : StoiError)
  | undefined
  deriving DecidableEq

inductive LBStrategy
  | random
  | roundRobin
  | weighted
  | consistentHash

/-- A balancer with its members. -/
inductive LoadBalancer
  | random
  | roundRobin (counter : UInt64)
  | weighted
  | consistentHash (virtualNodes : Int32) (key : Text)

/-- `make_load_balancer`. -/
def makeLoadBalancer : LBStrategy → LoadBalancer
  | .random => .random
  | .roundRobin => .roundRobin 0
  | .weighted => .weighted
  | .consistentHash => .consistentHash 150 []

/-- The exception of each `select` on an empty list. -/
def noEndpoints : Failure := .runtimeError "no available endpoints"

/-! ## Random and round-robin -/

/-- The endpoint at a position. -/
def endpointAt (endpoints : List ServiceEndpoint) (i : Nat) : Except Failure ServiceEndpoint :=
  match endpoints[i]? with
  | some ep => .ok ep
  | none => .error .undefined

/-- `RandomLoadBalancer::select`. The distribution gives a position of the list. -/
def selectRandom (endpoints : List ServiceEndpoint) (draw : Nat) : Except Failure ServiceEndpoint :=
  if endpoints = [] then .error noEndpoints else endpointAt endpoints (draw % endpoints.length)

/-- `RoundRobinLoadBalancer::select`, with the counter after it. -/
def selectRoundRobin (counter : UInt64) (endpoints : List ServiceEndpoint) :
    Except Failure ServiceEndpoint × UInt64 :=
  if endpoints = [] then (.error noEndpoints, counter)
  else (endpointAt endpoints (counter.toNat % endpoints.length), counter + 1)

/-! ## By weight -/

/-- The value is an `int`. -/
def InInt (v : Int) : Prop := -2 ^ 31 ≤ v ∧ v < 2 ^ 31

instance (v : Int) : Decidable (InInt v) := inferInstanceAs (Decidable (_ ∧ _))

/-- The sum of the weights from `total` on. An `int` that overflows is undefined. -/
def addWeights (total : Int) : List ServiceEndpoint → Except Failure Int
  | [] => .ok total
  | ep :: eps =>
    if InInt (total + ep.weight.toInt) then addWeights (total + ep.weight.toInt) eps
    else .error .undefined

/-- The second loop: take off weights until the rest is negative. -/
def scanWeights (back : ServiceEndpoint) (r : Int) :
    List ServiceEndpoint → Except Failure ServiceEndpoint
  | [] => .ok back
  | ep :: eps =>
    if ¬ InInt (r - ep.weight.toInt) then .error .undefined
    else if r - ep.weight.toInt < 0 then .ok ep
    else scanWeights back (r - ep.weight.toInt) eps

/-- `WeightedLoadBalancer::select`. A distribution from 0 to a negative number is undefined. -/
def selectWeighted (endpoints : List ServiceEndpoint) (draw : Nat) :
    Except Failure ServiceEndpoint :=
  match endpoints.getLast? with
  | none => .error noEndpoints
  | some back =>
    match addWeights 0 endpoints with
    | .error e => .error e
    | .ok total =>
      if total - 1 < 0 then .error .undefined
      else scanWeights back (draw % total) endpoints

/-! ## By a hash -/

/-- FNV-1a with 32 bits. -/
def hash (s : Text) : UInt32 := s.foldl (fun h c => (h ^^^ c.toUInt32) * 16777619) 2166136261

/-- `ring[h] = &ep` in the ordered map. -/
def ringSet (h : UInt32) (ep : ServiceEndpoint) :
    List (UInt32 × ServiceEndpoint) → List (UInt32 × ServiceEndpoint)
  | [] => [(h, ep)]
  | entry :: ring =>
    if h < entry.1 then (h, ep) :: entry :: ring
    else if h = entry.1 then (h, ep) :: ring
    else entry :: ringSet h ep ring

/-- The text of a virtual node. -/
def virtualNode (ep : ServiceEndpoint) (i : Nat) : Text := ep.toText ++ ascii ['#'] ++ decimal i

/-- The virtual nodes of one endpoint on the ring. -/
def ringAdd (virtualNodes : Nat) (ring : List (UInt32 × ServiceEndpoint)) (ep : ServiceEndpoint) :
    List (UInt32 × ServiceEndpoint) :=
  (List.range virtualNodes).foldl (fun ring i => ringSet (hash (virtualNode ep i)) ep ring) ring

def buildRing (virtualNodes : Nat) (endpoints : List ServiceEndpoint) :
    List (UInt32 × ServiceEndpoint) :=
  endpoints.foldl (ringAdd virtualNodes) []

/-- `ConsistentHashLoadBalancer::select`. Without a virtual node the ring is empty, and there
is nothing at its beginning. -/
def selectConsistentHash (virtualNodes : Int32) (key : Text) (endpoints : List ServiceEndpoint) :
    Except Failure ServiceEndpoint :=
  if endpoints = [] then .error noEndpoints
  else
    let ring := buildRing virtualNodes.toInt.toNat endpoints
    let keyHash := hash (if key = [] then ascii ['d', 'e', 'f', 'a', 'u', 'l', 't'] else key)
    match (ring.find? fun entry => keyHash ≤ entry.1).or ring.head? with
    | some entry => .ok entry.2
    | none => .error .undefined

/-! ## Any of them -/

/-- `lb_->select`, with the balancer after it. `draw` is what the random generator gave. -/
def LoadBalancer.select (lb : LoadBalancer) (endpoints : List ServiceEndpoint) (draw : Nat) :
    Except Failure ServiceEndpoint × LoadBalancer :=
  match lb with
  | .random => (selectRandom endpoints draw, .random)
  | .roundRobin counter =>
    ((selectRoundRobin counter endpoints).1, .roundRobin (selectRoundRobin counter endpoints).2)
  | .weighted => (selectWeighted endpoints draw, .weighted)
  | .consistentHash virtualNodes key =>
    (selectConsistentHash virtualNodes key endpoints, .consistentHash virtualNodes key)

theorem endpointAt_eq {endpoints : List ServiceEndpoint} {i : Nat} {ep : ServiceEndpoint}
    (h : endpoints[i]? = some ep) : endpointAt endpoints i = .ok ep := by
  unfold endpointAt
  rw [h]

theorem endpointAt_mem {endpoints : List ServiceEndpoint} {i : Nat} {ep : ServiceEndpoint}
    (h : endpointAt endpoints i = .ok ep) : ep ∈ endpoints := by
  unfold endpointAt at h
  split at h
  · cases h
    exact List.mem_of_getElem? ‹_›
  · cases h

theorem scanWeights_mem {back : ServiceEndpoint} {endpoints : List ServiceEndpoint} {r : Int}
    {ep : ServiceEndpoint} (h : scanWeights back r endpoints = .ok ep) :
    ep = back ∨ ep ∈ endpoints := by
  induction endpoints generalizing r with
  | nil => cases h; exact Or.inl rfl
  | cons first eps ih =>
    unfold scanWeights at h
    split at h
    · cases h
    split at h
    · cases h
      exact Or.inr (by simp)
    · rcases ih h with hback | hmem
      · exact Or.inl hback
      · exact Or.inr (List.mem_cons_of_mem _ hmem)

theorem mem_ringSet {h : UInt32} {ep : ServiceEndpoint} {ring : List (UInt32 × ServiceEndpoint)}
    {entry : UInt32 × ServiceEndpoint} (hmem : entry ∈ ringSet h ep ring) :
    entry = (h, ep) ∨ entry ∈ ring := by
  induction ring with
  | nil => exact Or.inl (by simpa [ringSet] using hmem)
  | cons first ring ih =>
    unfold ringSet at hmem
    split at hmem
    · exact List.mem_cons.mp hmem
    split at hmem
    · rcases List.mem_cons.mp hmem with hnew | hold
      · exact Or.inl hnew
      · exact Or.inr (List.mem_cons_of_mem _ hold)
    · rcases List.mem_cons.mp hmem with hfirst | hrest
      · exact Or.inr (by simp [hfirst])
      · exact (ih hrest).imp_right (List.mem_cons_of_mem _)

theorem mem_ringAdd {n : Nat} {ring : List (UInt32 × ServiceEndpoint)} {ep : ServiceEndpoint}
    {entry : UInt32 × ServiceEndpoint} (hmem : entry ∈ ringAdd n ring ep) :
    entry.2 = ep ∨ entry ∈ ring := by
  unfold ringAdd at hmem
  generalize List.range n = is at hmem
  induction is generalizing ring with
  | nil => exact Or.inr hmem
  | cons i is ih =>
    rcases ih hmem with hep | hset
    · exact Or.inl hep
    · exact (mem_ringSet hset).imp_left fun hnew => by rw [hnew]

/-- The ring holds endpoints of the list only. -/
theorem mem_buildRing {n : Nat} {endpoints : List ServiceEndpoint}
    {entry : UInt32 × ServiceEndpoint} (hmem : entry ∈ buildRing n endpoints) :
    entry.2 ∈ endpoints := by
  have hfold : ∀ (eps : List ServiceEndpoint) (ring : List (UInt32 × ServiceEndpoint)),
      entry ∈ eps.foldl (ringAdd n) ring → entry.2 ∈ eps ∨ entry ∈ ring := by
    intro eps
    induction eps with
    | nil => exact fun ring h => Or.inr h
    | cons ep eps ih =>
      intro ring h
      rcases ih _ h with hrest | hadd
      · exact Or.inl (List.mem_cons_of_mem _ hrest)
      · exact (mem_ringAdd hadd).imp_left fun hep => by simp [hep]
  rcases hfold endpoints [] hmem with h | h
  · exact h
  · cases h

/-- Whatever the strategy is, an endpoint that is returned is one of the list. -/
theorem LoadBalancer.select_mem {lb : LoadBalancer} {endpoints : List ServiceEndpoint} {draw : Nat}
    {ep : ServiceEndpoint} (h : (lb.select endpoints draw).1 = .ok ep) : ep ∈ endpoints := by
  cases lb with
  | random =>
    change selectRandom endpoints draw = .ok ep at h
    unfold selectRandom at h
    split at h
    · cases h
    · exact endpointAt_mem h
  | roundRobin counter =>
    change (selectRoundRobin counter endpoints).1 = .ok ep at h
    unfold selectRoundRobin at h
    split at h
    · cases h
    · exact endpointAt_mem h
  | weighted =>
    change selectWeighted endpoints draw = .ok ep at h
    unfold selectWeighted at h
    split at h
    · cases h
    rename_i back hback
    split at h
    · cases h
    split at h
    · cases h
    · rcases scanWeights_mem h with rfl | hmem
      · exact List.mem_of_getLast? hback
      · exact hmem
  | consistentHash virtualNodes key =>
    change selectConsistentHash virtualNodes key endpoints = .ok ep at h
    unfold selectConsistentHash at h
    split at h
    · cases h
    dsimp only at h
    split at h
    · rename_i entry hentry
      cases h
      rcases Option.or_eq_some_iff.mp hentry with hfind | ⟨-, hhead⟩
      · exact mem_buildRing (List.mem_of_find?_eq_some hfind)
      · exact mem_buildRing (List.mem_of_head? hhead)
    · cases h

end rpc.registry
