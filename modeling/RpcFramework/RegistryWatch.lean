-- Refreshes of one service that run at the same time, over a ZooKeeper service
-- with one-shot watches. Each refresh sets a watch before it reads, so no change
-- of the child list is missed. But a refresh that read before a change may store
-- after one that read behind it.
import RpcFramework.ServiceRegistry

namespace rpc.registry

open text runs

/-! ## The model -/

/-- Where a `refresh` is. A list that was read carries how many changes came before the read. -/
inductive Stage
  /-- Nothing has begun. -/
  | idle
  /-- `discover` has seen an empty cache entry, and is about to call `refresh`. -/
  | looking
  | called
  | watching
  | read (children : List Text) (version : Nat)
  | built (endpoints : List ServiceEndpoint) (version : Nat)
  | done
  /-- `std::stoi` has thrown. -/
  | failed
  deriving DecidableEq

/-- The refresh has been called and has not come back. -/
def Stage.inProgress : Stage → Bool
  | .called | .watching | .read _ _ | .built _ _ => true
  | _ => false

/-- One service: its child list and how often it has changed, the watches that are set, the
notifications on their way, the cache entry with the version of its list, and the refreshes. -/
structure RefreshRun (ι : Type) where
  children : List Text
  changes : Nat
  watches : Nat
  notifications : Nat
  cache : Option (List ServiceEndpoint × Nat)
  stages : ι → Stage

/-- The steps of the refreshes, and the changes of the child list. `nodes` is the data that the
calls of `get` in one `build` see. -/
inductive RefreshAct (ι : Type)
  | look (i : ι)
  | call (i : ι)
  | notify (i : ι)
  | watchChildren (i : ι)
  | getChildren (i : ι)
  | build (i : ι) (nodes : Text → Option Text)
  | store (i : ι)
  | change (children : List Text)

namespace RefreshRun

variable {ι : Type} [DecidableEq ι]

/-- The run with one refresh at another stage. -/
def moved (s : RefreshRun ι) (i : ι) (stage : Stage) : RefreshRun ι :=
  { s with stages := Function.update s.stages i stage }

/-- What `discover` finds in the cache. -/
def cached (s : RefreshRun ι) : List ServiceEndpoint := (s.cache.map (·.1)).getD []

/-- A change of the child list takes every watch that is set, and sends one notification for
each. -/
def step (service : Text) (s : RefreshRun ι) : RefreshAct ι → Option (RefreshRun ι)
  | .look i =>
    match s.stages i with
    | .idle => if s.cached = [] then some (s.moved i .looking) else none
    | _ => none
  | .call i =>
    match s.stages i with
    | .looking => some (s.moved i .called)
    | _ => none
  | .notify i =>
    match s.stages i, s.notifications with
    | .idle, n + 1 => some { s.moved i .called with notifications := n }
    | _, _ => none
  | .watchChildren i =>
    match s.stages i with
    | .called => some { s.moved i .watching with watches := s.watches + 1 }
    | _ => none
  | .getChildren i =>
    match s.stages i with
    | .watching => some (s.moved i (.read s.children s.changes))
    | _ => none
  | .build i nodes =>
    match s.stages i with
    | .read children version =>
      match endpointsOf nodes (servicePath service) children with
      | .ok endpoints => some (s.moved i (.built endpoints version))
      | .error _ => some (s.moved i .failed)
    | _ => none
  | .store i =>
    match s.stages i with
    | .built endpoints version =>
      some { s.moved i .done with cache := some (endpoints, version) }
    | _ => none
  | .change children =>
    some { s with
      children := children
      changes := s.changes + 1
      watches := 0
      notifications := s.notifications + s.watches }

def machine (ι : Type) [DecidableEq ι] (service : Text) (children : List Text) :
    Machine (RefreshRun ι) (RefreshAct ι) where
  init := ⟨children, 0, 0, 0, none, fun _ => .idle⟩
  step := step service

/-! ## Addresses -/

/-- The host and the port that `refresh` reads from the name of a child. -/
def addressOf (child : Text) : Option (Text × UInt16) :=
  match rfind colon child with
  | none => none
  | some i => ((readInt (child.drop (i + 1))).toOption).map fun v => (child.take i, castPort v)

def addressesOf (children : List Text) : List (Text × UInt16) := children.filterMap addressOf

def addresses (endpoints : List ServiceEndpoint) : List (Text × UInt16) :=
  endpoints.map fun ep => (ep.host, ep.port)

/-- The list that a refresh builds has the addresses of the children. -/
theorem addresses_endpointsOf {nodes : Text → Option Text} {path : Text} {children : List Text}
    {endpoints : List ServiceEndpoint} (h : endpointsOf nodes path children = .ok endpoints) :
    addresses endpoints = addressesOf children := by
  induction children generalizing endpoints with
  | nil => cases h; rfl
  | cons child children ih =>
    unfold endpointsOf at h
    unfold addressesOf
    cases hc : rfind colon child with
    | none =>
      simp only [hc] at h
      have hnone : addressOf child = none := by simp [addressOf, hc]
      rw [List.filterMap_cons_none hnone]
      exact ih h
    | some i =>
      simp only [hc] at h
      obtain ⟨port, hport, h⟩ := ok_of_bind h
      obtain ⟨weight, -, h⟩ := ok_of_bind h
      obtain ⟨rest, hrest, h⟩ := ok_of_bind h
      cases h
      have hsome : addressOf child = some (child.take i, castPort port) := by
        simp [addressOf, hc, hport, Except.toOption]
      rw [List.filterMap_cons_some hsome]
      exact congrArg (_ :: ·) (ih hrest)

/-! ## The bookkeeping of a run -/

/-- The refresh will store a list of this version, or of a later one. -/
def renews (version : Nat) : Stage → Bool
  | .called | .watching => true
  | .read _ v | .built _ v => v = version
  | _ => false

/-- The refresh has set its watch. -/
def begun : Stage → Bool
  | .idle | .looking | .called => false
  | _ => true

/-- What a refresh holds is what the children were at its version. -/
def Sound (children : List Text) (changes : Nat) : Stage → Prop
  | .read read v => v ≤ changes ∧ (v = changes → read = children)
  | .built endpoints v => v ≤ changes ∧ (v = changes → addresses endpoints = addressesOf children)
  | _ => True

/-- No change of the child list is missed: once a watch was set, there is a watch, a notification
or a refresh that is about to set one; and the cached list is of the latest version, or a
refresh will store a list of it. -/
structure Watched (s : RefreshRun ι) : Prop where
  stages : ∀ i, Sound s.children s.changes (s.stages i)
  cache : ∀ endpoints v, s.cache = some (endpoints, v) →
    v ≤ s.changes ∧ (v = s.changes → addresses endpoints = addressesOf s.children)
  watch : (∃ i, begun (s.stages i) = true) →
    0 < s.watches ∨ 0 < s.notifications ∨ ∃ i, s.stages i = .called
  current : (∃ i, begun (s.stages i) = true) →
    0 < s.notifications ∨ (∃ i, renews s.changes (s.stages i) = true) ∨
      ∃ endpoints, s.cache = some (endpoints, s.changes)

theorem sound_later {children children' : List Text} {changes : Nat} {stage : Stage}
    (h : Sound children changes stage) : Sound children' (changes + 1) stage := by
  cases stage with
  | read read v =>
    have hle := h.1
    exact ⟨by omega, fun heq => by omega⟩
  | built endpoints v =>
    have hle := h.1
    exact ⟨by omega, fun heq => by omega⟩
  | _ => trivial

theorem watched_init (service : Text) (children : List Text) :
    Watched (machine ι service children).init where
  stages _ := trivial
  cache := by simp [machine]
  watch := by simp [machine, begun]
  current := by simp [machine, begun]

variable {s : RefreshRun ι} {i : ι} {stage : Stage}

/-- Another refresh that has begun has begun still. -/
theorem begun_before (h : ∃ j, begun ((s.moved i stage).stages j) = true) :
    begun stage = true ∨ ∃ j, begun (s.stages j) = true := by
  obtain ⟨j, hj⟩ := h
  by_cases hji : j = i
  · subst hji
    left
    simpa [moved] using hj
  · right
    exact ⟨j, by simpa [moved, Function.update_of_ne hji] using hj⟩

/-- A property that some refresh has, and that the moving one does not need, stays. -/
theorem exists_moved {P : Stage → Prop} (h : ∃ j, P (s.stages j)) (hi : P (s.stages i) → P stage) :
    ∃ j, P ((s.moved i stage).stages j) := by
  obtain ⟨j, hj⟩ := h
  by_cases hji : j = i
  · subst hji
    exact ⟨j, by simpa [moved] using hi hj⟩
  · exact ⟨j, by simpa [moved, Function.update_of_ne hji] using hj⟩

theorem stages_moved (h : ∀ j, Sound s.children s.changes (s.stages j))
    (hstage : Sound s.children s.changes stage) (j : ι) :
    Sound s.children s.changes ((s.moved i stage).stages j) := by
  by_cases hji : j = i
  · subst hji
    simpa [moved] using hstage
  · simpa [moved, Function.update_of_ne hji] using h j

/-- A refresh moves on, and nothing else changes. -/
theorem watched_moved (h : Watched s) (hsound : Sound s.children s.changes stage)
    (hbegun : begun stage = true → begun (s.stages i) = true) (hcalled : s.stages i ≠ .called)
    (hrenews : renews s.changes (s.stages i) = true → renews s.changes stage = true) :
    Watched (s.moved i stage) where
  stages := stages_moved h.stages hsound
  cache := h.cache
  watch := by
    intro hb
    have hold : ∃ j, begun (s.stages j) = true :=
      (begun_before hb).elim (fun hs => ⟨i, hbegun hs⟩) id
    refine (h.watch hold).imp_right (Or.imp_right fun hc => ?_)
    exact exists_moved (P := (· = Stage.called)) hc fun heq => absurd heq hcalled
  current := by
    intro hb
    have hold : ∃ j, begun (s.stages j) = true :=
      (begun_before hb).elim (fun hs => ⟨i, hbegun hs⟩) id
    refine (h.current hold).imp_right (Or.imp_left fun hr => ?_)
    exact exists_moved (P := fun st => renews s.changes st = true) hr hrenews

theorem watched_notify (h : Watched s) (n : Nat) :
    Watched { s.moved i .called with notifications := n } where
  stages := stages_moved h.stages trivial
  cache := h.cache
  watch _ := Or.inr (Or.inr ⟨i, by simp [moved]⟩)
  current _ := Or.inr (Or.inl ⟨i, by simp [moved, renews]⟩)

theorem watched_watchChildren (h : Watched s) :
    Watched { s.moved i .watching with watches := s.watches + 1 } where
  stages := stages_moved h.stages trivial
  cache := h.cache
  watch _ := Or.inl (Nat.succ_pos _)
  current _ := Or.inr (Or.inl ⟨i, by simp [moved, renews]⟩)

/-- A list is stored, and the list that it takes the place of is not of a later version. -/
theorem watched_store (h : Watched s) {endpoints : List ServiceEndpoint} {version : Nat}
    (hi : s.stages i = .built endpoints version)
    (horder : ∀ eps v, s.cache = some (eps, v) → v ≤ version) :
    Watched { s.moved i .done with cache := some (endpoints, version) } := by
  have hbuilt := h.stages i
  rw [hi] at hbuilt
  obtain ⟨hle, hsame⟩ := hbuilt
  have hbegun : ∃ j, begun (s.stages j) = true := ⟨i, by rw [hi]; rfl⟩
  refine ⟨stages_moved h.stages trivial, ?_, ?_, ?_⟩
  · intro eps v heq
    cases heq
    exact ⟨hle, hsame⟩
  · intro _
    refine (h.watch hbegun).imp_right (Or.imp_right fun hc => ?_)
    exact exists_moved (P := (· = Stage.called)) hc fun heq => by rw [hi] at heq; cases heq
  · intro _
    by_cases hv : version = s.changes
    · exact Or.inr (Or.inr ⟨endpoints, by rw [hv]; rfl⟩)
    rcases h.current hbegun with hn | hr | ⟨eps, hc⟩
    · exact Or.inl hn
    · refine Or.inr (Or.inl (exists_moved (P := fun st => renews s.changes st = true) hr ?_))
      intro hrenews
      rw [hi] at hrenews
      exact absurd (of_decide_eq_true hrenews) hv
    · have := horder eps s.changes hc
      omega

omit [DecidableEq ι] in
theorem watched_change (h : Watched s) (children : List Text) :
    Watched { s with
      children := children
      changes := s.changes + 1
      watches := 0
      notifications := s.notifications + s.watches } where
  stages i := sound_later (h.stages i)
  cache := by
    intro eps v heq
    have hle := (h.cache eps v heq).1
    exact ⟨by simp only; omega, fun hv => by simp only at hv; omega⟩
  watch := by
    intro hb
    rcases h.watch hb with hw | hn | hc
    · exact Or.inr (Or.inl (by simp only; omega))
    · exact Or.inr (Or.inl (by simp only; omega))
    · exact Or.inr (Or.inr hc)
  current := by
    intro hb
    rcases h.watch hb with hw | hn | ⟨i, hc⟩
    · exact Or.inl (by simp only; omega)
    · exact Or.inl (by simp only; omega)
    · exact Or.inr (Or.inl ⟨i, by simp only [hc]; rfl⟩)

/-! ## The law -/

/-- A refresh does not throw, and it does not store a list over one that was read after a later
change of the children. -/
def inOrder (service : Text) (s : RefreshRun ι) : RefreshAct ι → Bool
  | .build i nodes =>
    match s.stages i with
    | .read children _ => (endpointsOf nodes (servicePath service) children).isOk
    | _ => true
  | .store i =>
    match s.stages i, s.cache with
    | .built _ version, some (_, v) => v ≤ version
    | _, _ => true
  | _ => true

def InOrder (service : Text) (s : RefreshRun ι) (a : RefreshAct ι) : Prop :=
  inOrder service s a = true

instance (service : Text) (s : RefreshRun ι) (a : RefreshAct ι) :
    Decidable (InOrder service s a) :=
  inferInstanceAs (Decidable (_ = _))

theorem watched_step {service : Text} {s' : RefreshRun ι} {a : RefreshAct ι} (h : Watched s)
    (hok : InOrder service s a) (hs : step service s a = some s') : Watched s' := by
  cases a with
  | look i =>
    dsimp only [step] at hs
    split at hs
    · rename_i hi
      split at hs
      · cases hs
        refine watched_moved h trivial ?_ ?_ ?_ <;> simp [hi, begun, renews]
      · cases hs
    · cases hs
  | call i =>
    dsimp only [step] at hs
    split at hs
    · rename_i hi
      cases hs
      refine watched_moved h trivial ?_ ?_ ?_ <;> simp [hi, begun, renews]
    · cases hs
  | notify i =>
    dsimp only [step] at hs
    split at hs
    · cases hs
      exact watched_notify h _
    · cases hs
  | watchChildren i =>
    dsimp only [step] at hs
    split at hs
    · cases hs
      exact watched_watchChildren h
    · cases hs
  | getChildren i =>
    dsimp only [step] at hs
    split at hs
    · rename_i hi
      cases hs
      refine watched_moved h ⟨Nat.le_refl _, fun _ => rfl⟩ ?_ ?_ ?_ <;> simp [hi, begun, renews]
    · cases hs
  | build i nodes =>
    dsimp only [step] at hs
    split at hs
    · rename_i children version hi
      split at hs
      · rename_i endpoints hb
        cases hs
        have hread := h.stages i
        rw [hi] at hread
        refine watched_moved h ⟨hread.1, fun hv => ?_⟩ ?_ ?_ ?_
        · rw [addresses_endpointsOf hb, hread.2 hv]
        all_goals simp [hi, begun, renews]
      · rename_i e hb
        simp only [InOrder, inOrder, hi, hb] at hok
        cases hok
    · cases hs
  | store i =>
    dsimp only [step] at hs
    split at hs
    · rename_i endpoints version hi
      cases hs
      refine watched_store h hi fun eps v hc => ?_
      simp only [InOrder, inOrder, hi, hc] at hok
      exact of_decide_eq_true hok
    · cases hs
  | change children =>
    cases hs
    exact watched_change h children

/-- In a run of refreshes that do not throw and that store in order: when some refresh has come
back, none is in progress and no notification is on its way, then the cache entry has the
addresses of the current children. -/
theorem the_cache_converges {service : Text} {children : List Text}
    (h : (machine ι service children).ReachUnder (InOrder service) s)
    (hdone : ∃ i, s.stages i = .done) (hquiet : ∀ i, (s.stages i).inProgress = false)
    (hnone : s.notifications = 0) :
    addresses s.cached = addressesOf s.children := by
  have hw : Watched s := Machine.ReachUnder.invariant (I := Watched) (watched_init service children)
    (fun s a s' _ hi hok hs => watched_step hi hok hs) h
  obtain ⟨i, hi⟩ := hdone
  rcases hw.current ⟨i, by rw [hi]; rfl⟩ with hn | ⟨j, hj⟩ | ⟨endpoints, hc⟩
  · omega
  · have hprogress := hquiet j
    cases hstage : s.stages j <;> rw [hstage] at hj hprogress <;> simp_all [renews, Stage.inProgress]
  · have hsame := (hw.cache endpoints s.changes hc).2 rfl
    unfold cached
    rw [hc]
    exact hsame

/-- A lookup reads one address, another address comes, and the notification reads both. -/
theorem a_new_address_is_cached :
    ∃ s, (machine Bool (ascii ['s']) [ascii ['h', ':', '1']]).ReachUnder (InOrder (ascii ['s'])) s ∧
      addresses s.cached = [(ascii ['h'], 1), (ascii ['g'], 2)] := by
  have hrun : ∃ s, (machine Bool (ascii ['s']) [ascii ['h', ':', '1']]).ReachUnder
      (InOrder (ascii ['s'])) s ∧ (s.stages true = .done ∧ (∀ i, (s.stages i).inProgress = false) ∧
        s.notifications = 0 ∧ addressesOf s.children = [(ascii ['h'], 1), (ascii ['g'], 2)]) :=
    Machine.ReachUnder.of_run [.look false, .call false, .watchChildren false, .getChildren false,
      .change [ascii ['h', ':', '1'], ascii ['g', ':', '2']], .build false fun _ => none,
      .store false, .notify true, .watchChildren true, .getChildren true,
      .build true fun _ => none, .store true] (by decide +kernel)
  obtain ⟨s, hs, hdone, hquiet, hnone, hchildren⟩ := hrun
  exact ⟨s, hs, (the_cache_converges hs ⟨true, hdone⟩ hquiet hnone).trans hchildren⟩

/-- The lookup reads before the change, but stores after the notification has stored. -/
theorem an_old_list_is_stored_last :
    ∃ s, (machine Bool (ascii ['s']) [ascii ['h', ':', '1']]).Reach s ∧ s.stages true = .done ∧
      (∀ i, (s.stages i).inProgress = false) ∧ s.notifications = 0 ∧
      addresses s.cached = [(ascii ['h'], 1)] ∧ addressesOf s.children = [(ascii ['g'], 2)] :=
  Machine.ReachUnder.of_run [.look false, .call false, .watchChildren false, .getChildren false,
    .change [ascii ['g', ':', '2']], .notify true, .watchChildren true, .getChildren true,
    .build true fun _ => none, .store true, .build false fun _ => none, .store false]
    (by decide +kernel)

end RefreshRun

end rpc.registry
