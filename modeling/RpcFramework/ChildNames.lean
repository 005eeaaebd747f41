-- The names of the children that `refresh` finds. A name without a colon is passed
-- over, and of any other the port is read by `std::stoi`, which takes more than
-- the registry writes. So the names are read exactly when each name with a colon
-- is one that the registry could have written.
import RpcFramework.RegistryEntries
import Mathlib.Data.List.Basic

namespace rpc.registry

open text locks

variable {nodes : Text → Option Text} {path child rest host : Text} {children : List Text}
  {eps : List ServiceEndpoint}

/-- The name is a host, a colon, and the decimal text of a port. -/
def isName (child : Text) : Bool :=
  match rfind colon child with
  | none => false
  | some i =>
    let port := child.drop (i + 1)
    decide (magnitude port < 2 ^ 16) && decide (decimal (magnitude port) = port)

theorem isName_cut (h : colon ∉ rest) (host : Text) :
    isName (host ++ colon :: rest) = true ↔ ∃ port : UInt16, rest = decimal port.toNat := by
  unfold isName
  rw [rfind_last h]
  dsimp only
  have hdrop : (host ++ colon :: rest).drop (host.length + 1) = rest := by
    rw [← List.drop_drop, List.drop_left]
    rfl
  rw [hdrop, Bool.and_eq_true, decide_eq_true_eq, decide_eq_true_eq]
  refine ⟨?_, ?_⟩
  · rintro ⟨hlt, hport⟩
    refine ⟨UInt16.ofNat (magnitude rest), ?_⟩
    rw [UInt16.toNat_ofNat_of_lt' hlt, hport]
  · rintro ⟨port, rfl⟩
    rw [magnitude_decimal]
    exact ⟨port.toNat_lt, rfl⟩

/-- The names are those that the registry writes. -/
theorem isName_iff : isName child = true ↔ ∃ host port, child = childName host port := by
  refine ⟨?_, ?_⟩
  · intro h
    by_cases hcolon : colon ∈ child
    · obtain ⟨host, rest, rfl, hrest⟩ := exists_last hcolon
      obtain ⟨port, rfl⟩ := (isName_cut hrest host).mp h
      exact ⟨host, port, by simp [childName]⟩
    · unfold isName at h
      rw [rfind_none hcolon] at h
      cases h
  · rintro ⟨host, port, rfl⟩
    have hd : colon ∉ decimal port.toNat := not_mem_decimal (by decide) _
    unfold childName
    rw [List.append_assoc]
    exact (isName_cut hd host).mpr ⟨port, rfl⟩

theorem toText_eq (ep : ServiceEndpoint) : ep.toText = childName ep.host ep.port := rfl

theorem endpointsOf_no_colon (h : colon ∉ child) :
    endpointsOf nodes path (child :: children) = endpointsOf nodes path children := by
  rw [endpointsOf, rfind_none h]

/-- What the loop of `refresh` does with a name that is cut at its last colon. -/
theorem endpointsOf_cut (h : colon ∉ rest) (host : Text) :
    endpointsOf nodes path ((host ++ colon :: rest) :: children) = (do
      let port ← readInt rest
      let weight ← readWeight ((nodes (path ++ [slash] ++ (host ++ colon :: rest))).getD [])
      let endpoints ← endpointsOf nodes path children
      return ⟨host, castPort port, weight⟩ :: endpoints) := by
  have hdrop : (host ++ colon :: rest).drop (host.length + 1) = rest := by
    rw [← List.drop_drop, List.drop_left]
    rfl
  rw [endpointsOf, rfind_last h]
  simp only [hdrop, List.take_left]

/-- When the loop ends, it has read each name with a colon, as one endpoint. -/
theorem endpointsOf_length (h : endpointsOf nodes path children = .ok eps) :
    eps.length = (children.filter fun child => colon ∈ child).length := by
  induction children generalizing eps with
  | nil =>
    cases h
    rfl
  | cons child children ih =>
    by_cases hcolon : colon ∈ child
    · rw [List.filter_cons_of_pos (by simpa using hcolon)]
      obtain ⟨host, rest, rfl, hrest⟩ := exists_last hcolon
      rw [endpointsOf_cut hrest] at h
      obtain ⟨port, -, h⟩ := ok_of_bind h
      obtain ⟨weight, -, h⟩ := ok_of_bind h
      obtain ⟨endpoints, heps, h⟩ := ok_of_bind h
      cases h
      rw [List.length_cons, List.length_cons, ih heps]
    · rw [endpointsOf_no_colon hcolon] at h
      rw [List.filter_cons_of_neg (by simpa using hcolon)]
      exact ih h

/-- Where each name with a colon is one of the registry, and the weights can be read, the
endpoints have the names. -/
theorem endpointsOf_names_only
    (hweight : ∀ child ∈ children, ∃ w, readWeight ((nodes (path ++ [slash] ++ child)).getD []) =
      .ok w)
    (h : ∀ child ∈ children, colon ∈ child → isName child = true) :
    ∃ eps, endpointsOf nodes path children = .ok eps ∧
      eps.map ServiceEndpoint.toText = children.filter isName := by
  induction children with
  | nil => exact ⟨[], rfl, rfl⟩
  | cons child children ih =>
    obtain ⟨eps, heps, hnames⟩ := ih (fun c hc => hweight c (by simp [hc]))
      fun c hc => h c (by simp [hc])
    by_cases hcolon : colon ∈ child
    · have hname := h child (by simp) hcolon
      obtain ⟨w, hw⟩ := hweight child (by simp)
      obtain ⟨host, rest, rfl, hrest⟩ := exists_last hcolon
      obtain ⟨port, rfl⟩ := (isName_cut hrest host).mp hname
      refine ⟨⟨host, port, w⟩ :: eps, ?_, ?_⟩
      · rw [endpointsOf_cut hrest, readInt_port, hw, heps]
        change Except.ok (ServiceEndpoint.mk host (castPort (Int32.ofInt port.toNat)) w :: eps) = _
        rw [castPort_port]
      · rw [List.filter_cons_of_pos hname, List.map_cons, hnames, toText_eq]
        simp [childName]
    · have hnot : isName child ≠ true := by
        intro hname
        obtain ⟨host, port, rfl⟩ := isName_iff.mp hname
        exact hcolon (by simp [childName])
      rw [endpointsOf_no_colon hcolon, List.filter_cons_of_neg hnot]
      exact ⟨eps, heps, hnames⟩

/-- `refresh` comes back, passes over every name that is not a host, a colon and a port, and has
for each other one, in order, an endpoint of that name, exactly when there is no other name with
a colon. -/
theorem the_names_are_read_exactly_iff (service : Text) (d : Registry)
    (hweight : ∀ child ∈ d.children (servicePath service),
      ∃ w, readWeight ((d.nodes (servicePath service ++ [slash] ++ child)).getD []) = .ok w) :
    (∃ t, refresh service (idle d) = .returned () t ∧
      (t.data.cache service).map ServiceEndpoint.toText =
        (d.children (servicePath service)).filter isName) ↔
      ∀ child ∈ d.children (servicePath service), colon ∈ child → isName child = true := by
  rw [refresh_spec]
  refine ⟨?_, ?_⟩
  · rintro ⟨t, hret, hnames⟩
    unfold found at hret
    generalize d.children (servicePath service) = children at hret hnames
    cases hfound : endpointsOf d.nodes (servicePath service) children with
    | error e =>
      rw [hfound] at hret
      cases hret
    | ok eps =>
      rw [hfound] at hret
      cases hret
      change ((stored service eps (watched service d)).cache service).map _ = _ at hnames
      rw [stored_cache] at hnames
      -- as many names are kept as have a colon, so these are the same
      have hlength := endpointsOf_length hfound
      rw [← List.length_map ServiceEndpoint.toText, hnames] at hlength
      have hsub :
          (children.filter isName).Sublist (children.filter fun child => colon ∈ child) := by
        refine List.monotone_filter_right children fun child hname => ?_
        obtain ⟨host, port, rfl⟩ := isName_iff.mp hname
        simp [childName]
      intro child hmem hcolon
      have hkept : child ∈ children.filter isName := by
        rw [hsub.eq_of_length hlength]
        exact List.mem_filter.mpr ⟨hmem, by simpa using hcolon⟩
      exact (List.mem_filter.mp hkept).2
  · intro h
    obtain ⟨eps, heps, hnames⟩ := endpointsOf_names_only hweight h
    unfold found
    rw [heps]
    refine ⟨_, rfl, ?_⟩
    change ((stored service eps (watched service d)).cache service).map _ = _
    rw [stored_cache, hnames]

/-- The tables when other programs have made nodes with these names under a service. -/
def withChildren (service : Text) (children : List Text) : Registry :=
  { Registry.started .roundRobin with
    children := Function.update (fun _ => []) (servicePath service) children }

/-- A name without a colon is passed over, and a host may have one. -/
theorem a_lock_node_is_passed_over :
    ∃ t, refresh (ascii ['s']) (idle (withChildren (ascii ['s'])
        [ascii ['l', 'o', 'c', 'k'], ascii ['a', ':', 'b', ':', '8', '0']])) = .returned () t ∧
      (t.data.cache (ascii ['s'])).map ServiceEndpoint.toText =
        [ascii ['a', ':', 'b', ':', '8', '0']] := by
  obtain ⟨t, hret, hnames⟩ := (the_names_are_read_exactly_iff (ascii ['s'])
    (withChildren (ascii ['s']) [ascii ['l', 'o', 'c', 'k'], ascii ['a', ':', 'b', ':', '8', '0']])
    (fun child _ => ⟨1, rfl⟩)).mpr (by decide)
  refine ⟨t, hret, hnames.trans ?_⟩
  decide

/-- A name that no port ends stops the refresh with an exception, and a number that is no port
becomes another one. -/
theorem odd_names_are_not_passed_over :
    refresh (ascii ['s']) (idle (withChildren (ascii ['s']) [ascii ['a', ':', 'b']])) =
        .threw (.stoi .invalidArgument)
          (idle (watched (ascii ['s']) (withChildren (ascii ['s']) [ascii ['a', ':', 'b']]))) ∧
      ∃ t, refresh (ascii ['s'])
          (idle (withChildren (ascii ['s']) [ascii ['a', ':', '7', '0', '0', '0', '0']])) =
            .returned () t ∧
        t.data.cache (ascii ['s']) = [⟨ascii ['a'], 4464, 1⟩] := by
  refine ⟨?_, ?_⟩
  · rw [refresh_spec]
    have hfound : found (ascii ['s']) (withChildren (ascii ['s']) [ascii ['a', ':', 'b']]) =
        .error (.stoi .invalidArgument) := by decide +kernel
    rw [hfound]
  · have hfound : found (ascii ['s'])
        (withChildren (ascii ['s']) [ascii ['a', ':', '7', '0', '0', '0', '0']]) =
        .ok [⟨ascii ['a'], 4464, 1⟩] := by decide +kernel
    rw [refresh_spec, hfound]
    exact ⟨_, rfl, stored_cache ..⟩

end rpc.registry
